import IdaHeadless.Address
import IdaHeadless.FirstRows
import IdaHeadless.Scan.Heads
import IdaHeadless.Traversal
import Mathlib.Data.List.Infix
import Mathlib.Data.List.Nodup

/-!
# Instruction sequences (handlers/search.rs, scan.rs)

`find_insns` walks the heads of a scope. Where the first pattern matches, a second walk confirms
the others on the instructions that follow. The second walk has its own way to the next
instruction, and it gives up at an instruction of no length where the first goes on with the
next head.
-/

namespace IdaHeadless.Scan

open Text FirstRows Address Traversal
open Paging (saturatingAdd usizeMax)

/-! ### Patterns -/

inductive PatternSet where
  | literal (patterns : List (List Char)) (caseInsensitive : Bool)
  | regex (regexes : List (List Char → Bool))

/- `to_ascii_lowercase`. -/
def toAsciiLowercase (text : List Char) : List Char := text.map Char.toLower

/- `build` is `RegexBuilder` with the case flag, which answers with the matcher or its error. -/
def compileRegex (build : List Char → Bool → Except String (List Char → Bool))
    (caseInsensitive : Bool) (pattern : List Char) : Except ToolError (List Char → Bool) :=
  match build pattern caseInsensitive with
  | .ok re => .ok re
  | .error error => .error (.invalidParams
      ("invalid regex '" ++ String.ofList pattern ++ "': " ++ error))

def PatternSet.compile (build : List Char → Bool → Except String (List Char → Bool))
    (patterns : List (List Char)) (caseInsensitive regex : Bool) : Except ToolError PatternSet :=
  if patterns = [] then .error (.invalidParams "empty patterns")
  else if !regex then
    .ok (.literal (if caseInsensitive then patterns.map toAsciiLowercase else patterns)
      caseInsensitive)
  else (patterns.mapM (compileRegex build caseInsensitive)).map .regex

def PatternSet.patternCount : PatternSet → ℕ
  | .literal patterns _ => patterns.length
  | .regex regexes => regexes.length

def PatternSet.matchesInsn (set : PatternSet) (index : ℕ) (mnemonic line : List Char) : Bool :=
  match set with
  | .literal patterns caseInsensitive =>
    match patterns[index]? with
    | none => false
    | some pattern =>
      let haystack := if ' ' ∈ pattern ∨ ',' ∈ pattern then line else mnemonic
      if caseInsensitive then pattern <:+: toAsciiLowercase haystack else pattern <:+: haystack
  | .regex regexes => regexes[index]?.any fun re => re line

structure InsnScanRequest where
  patterns : List (List Char)
  maxResults : ℕ
  caseInsensitive : Bool
  regex : Bool
  scope : ScanScope
  maxScan : ℕ

def InsnScanRequest.matcher (scan : InsnScanRequest)
    (build : List Char → Bool → Except String (List Char → Bool)) : Except ToolError PatternSet :=
  PatternSet.compile build scan.patterns scan.caseInsensitive scan.regex

/-! ### The search -/

/- `line.split(';').next()`. -/
def stripComment (line : List Char) : List Char := line.takeWhile (· ≠ ';')

/-- The mnemonic, the operands and the whole line. -/
def splitDisasmLine (line : List Char) : List Char × List Char × List Char :=
  let trimmed := trim (stripComment line)
  (trim (trimmed.takeWhile fun c => !isWhitespace c),
    trim ((trimmed.dropWhile fun c => !isWhitespace c).drop 1), trimmed)

/-- The mnemonic and the line at an address, if the pattern matches there. -/
def patternAt (db : Idb) (matcher : PatternSet) (index addr : ℕ) :
    Option (List Char × List Char) :=
  (db.disasmLine addr).bind fun line =>
    let (mnemonic, _, cleanLine) := splitDisasmLine line
    if mnemonic = [] ∨ ¬ matcher.matchesInsn index mnemonic cleanLine then none
    else some (mnemonic, cleanLine)

def nextAddr (db : Idb) (current : ℕ) : Option ℕ :=
  match db.insnAt current with
  | some len => if len = 0 then none else some (saturatingAdd current len)
  | none => (db.nextHead current).filter (current < ·)

/-- The loop of `match_sequence` over the patterns that are left. -/
def matchFrom (db : Idb) (matcher : PatternSet) (rangeEnd : ℕ) :
    List ℕ → ℕ → List ℕ → Option (List ℕ)
  | [], _, addrs => some addrs
  | index :: rest, current, addrs =>
    match (nextAddr db current).filter (· < rangeEnd) with
    | none => none
    | some next =>
      match patternAt db matcher index next with
      | none => none
      | some _ => matchFrom db matcher rangeEnd rest next (addrs ++ [next])

def matchSequence (db : Idb) (matcher : PatternSet) (start rangeEnd : ℕ) : Option (List ℕ) :=
  matchFrom db matcher rangeEnd (List.range' 1 (matcher.patternCount - 1)) start [start]

structure InsnMatch where
  address : String
  mnemonic : List Char
  line : List Char
  sequence : Option (List String)
  deriving DecidableEq

structure FindInsnsAnswer where
  patterns : List (List Char)
  caseInsensitive : Bool
  regex : Bool
  scope : String
  scanned : ℕ
  scanTruncated : Bool
  matched : List InsnMatch
  count : ℕ
  truncated : Bool

/-- The loop over the heads; the flag says that the results were cut. -/
def findLoop (db : Idb) (scan : InsnScanRequest) (matcher : PatternSet) :
    ℕ → InsnHeads → List InsnMatch → Option (Except ToolError (InsnHeads × List InsnMatch × Bool))
  | 0, _, _ => none
  | fuel + 1, heads, found =>
    match heads.next db with
    | (none, heads) => some (.ok (heads, found, false))
    | (some addr, heads) =>
      if found.length ≥ scan.maxResults then some (.ok (heads, found, true))
      else
        match patternAt db matcher 0 addr with
        | none => findLoop db scan matcher fuel heads found
        | some (mnemonic, line) =>
          if matcher.patternCount = 1 then
            findLoop db scan matcher fuel heads (found ++ [⟨hexAddr addr, mnemonic, line, none⟩])
          else
            match scan.scope.rangeEndFor db addr with
            | .error e => some (.error e)
            | .ok rangeEnd =>
              match matchSequence db matcher addr rangeEnd with
              | none => findLoop db scan matcher fuel heads found
              | some seq => findLoop db scan matcher fuel heads
                  (found ++ [⟨hexAddr addr, mnemonic, line, some (seq.map hexAddr)⟩])

def handleFindInsns (build : List Char → Bool → Except String (List Char → Bool)) (fuel : ℕ)
    (idb : Option Idb) (scan : InsnScanRequest) : Option (Except ToolError FindInsnsAnswer) :=
  match idb with
  | none => some (.error .noDatabaseOpen)
  | some db =>
    match scan.matcher build with
    | .error e => some (.error e)
    | .ok matcher =>
      match scan.scope.heads db scan.maxScan with
      | .error e => some (.error e)
      | .ok heads =>
        (findLoop db scan matcher fuel heads []).map fun outcome =>
          outcome.map fun (heads, found, truncated) =>
            ⟨scan.patterns, scan.caseInsensitive, scan.regex, scan.scope.describe, heads.scanned,
              heads.hitScanLimit, found, found.length, truncated⟩

/-! ### The plain search -/

/-- The nonempty suffixes of a list, the longest first. -/
def suffixes {α : Type*} : List α → List (List α)
  | [] => []
  | a :: l => (a :: l) :: suffixes l

/-- For every head of the walk, it and the heads that follow it in its range. -/
def runs (db : Idb) (ranges : List (ℕ × ℕ)) : List (List ℕ) :=
  ranges.flatMap fun r => suffixes (walkRange db r.1 r.2)

/-- Pattern `i` matches the head `i` of a run, for every pattern. -/
def matchesRun (db : Idb) (matcher : PatternSet) (run : List ℕ) : Bool :=
  matcher.patternCount ≤ run.length &&
    ((run.take matcher.patternCount).zipIdx).all fun p => (patternAt db matcher p.2 p.1).isSome

/-- The row of a match. -/
def runRow (db : Idb) (matcher : PatternSet) (run : List ℕ) : Option InsnMatch :=
  run.head?.bind fun addr => (patternAt db matcher 0 addr).map fun (mnemonic, line) =>
    ⟨hexAddr addr, mnemonic, line,
      if matcher.patternCount = 1 then none
      else some ((run.take matcher.patternCount).map hexAddr)⟩

/-- The runs that match, of as many heads as the budget allows. -/
def plainMatches (db : Idb) (matcher : PatternSet) (ranges : List (ℕ × ℕ)) (maxScan : ℕ) :
    List (List ℕ) :=
  ((runs db ranges).take maxScan).filter (matchesRun db matcher)

/-! ### The two walks -/

variable {db : Idb} {matcher : PatternSet} {addr stop current : ℕ}

/- The two ways to the next head differ at an instruction of no length alone. -/
theorem nextAddr_eq (hlt : current < stop) (hstop : stop < 2 ^ 64) :
    (nextAddr db current).filter (· < stop) =
      if db.insnAt current = some 0 then none else step db current stop := by
  unfold nextAddr step following
  cases hinsn : db.insnAt current with
  | none =>
    simp only [reduceCtorEq, if_false]
    cases db.nextHead current with
    | none => rfl
    | some next =>
      by_cases hup : current < next
      · simp [Option.filter, hup]
      · simp [Option.filter, hup]
  | some len =>
    by_cases hlen : len = 0
    · simp [hlen]
    · have hup : current < saturatingAdd current len := by
        simp only [saturatingAdd, usizeMax]
        omega
      simp [hlen, Option.filter, hup]

/-- The heads before the last have instructions. -/
def Solid (db : Idb) (seq : List ℕ) : Prop := ∀ a ∈ seq.dropLast, db.insnAt a ≠ some 0

instance (db : Idb) (seq : List ℕ) : Decidable (Solid db seq) := by
  unfold Solid
  infer_instance

/-- What the loop of `match_sequence` asks of the heads behind `current`. -/
def Confirms (db : Idb) (matcher : PatternSet) (i n : ℕ) (run : List ℕ) : Prop :=
  n ≤ run.tail.length ∧
    (∀ p ∈ (run.tail.take n).zipIdx i, (patternAt db matcher p.2 p.1).isSome = true) ∧
    ∀ a ∈ run.take n, db.insnAt a ≠ some 0

instance (db : Idb) (matcher : PatternSet) (i n : ℕ) (run : List ℕ) :
    Decidable (Confirms db matcher i n run) := by
  unfold Confirms
  infer_instance

/- The induction is on the patterns that are left; `current` is the last head matched. -/
theorem matchFrom_eq (hstop : stop < 2 ^ 64) (n i : ℕ) {current : ℕ} (addrs : List ℕ)
    (hlt : current < stop) :
    matchFrom db matcher stop (List.range' i n) current addrs =
      if Confirms db matcher i n (walkRange db current stop) then
        some (addrs ++ (walkRange db current stop).tail.take n)
      else none := by
  induction n generalizing i current addrs with
  | zero => simp [matchFrom, Confirms]
  | succ n ih =>
    rw [List.range'_succ, matchFrom, nextAddr_eq hlt hstop, walkRange_of_lt hlt]
    by_cases hzero : db.insnAt current = some 0
    · have hnot : ¬ Confirms db matcher i (n + 1)
          (current :: (step db current stop).elim [] fun next => walkRange db next stop) :=
        fun h => h.2.2 current (by simp) hzero
      rw [if_pos hzero, if_neg hnot]
    · rw [if_neg hzero]
      cases hstep : step db current stop with
      | none =>
        have hnot : ¬ Confirms db matcher i (n + 1) [current] := fun h => by simpa using h.1
        exact (if_neg hnot).symm
      | some next =>
        obtain ⟨-, -, hin⟩ := step_some hstep
        have htail : walkRange db next stop = _ := walkRange_of_lt hin
        have hrest := ih (i + 1) (addrs ++ [next]) hin
        cases hpattern : patternAt db matcher i next with
        | none =>
          have hnot : ¬ Confirms db matcher i (n + 1) (current :: walkRange db next stop) := by
            intro h
            have hfirst := h.2.1 (next, i) (by rw [htail]; simp)
            rw [hpattern] at hfirst
            cases hfirst
          simp only [Option.elim_some, hpattern]
          exact (if_neg hnot).symm
        | some line =>
          have hiff : Confirms db matcher i (n + 1) (current :: walkRange db next stop) ↔
              Confirms db matcher (i + 1) n (walkRange db next stop) := by
            unfold Confirms
            rw [htail]
            simp only [List.tail_cons, List.length_cons, List.take_succ_cons, List.zipIdx_cons,
              List.mem_cons, forall_eq_or_imp, hpattern, Option.isSome_some, true_and, ne_eq,
              hzero, not_false_eq_true, Nat.add_le_add_iff_right]
          have hrows : (walkRange db next stop).take (n + 1) =
              next :: (walkRange db next stop).tail.take n := by
            rw [htail, List.take_succ_cons, List.tail_cons]
          simp only [Option.elim_some, hpattern, hrest, if_congr hiff rfl rfl, List.tail_cons,
            hrows, List.append_assoc, List.singleton_append]

theorem matchSequence_eq (hstop : stop < 2 ^ 64) (hlt : addr < stop)
    (hcount : 1 ≤ matcher.patternCount) (hfirst : (patternAt db matcher 0 addr).isSome = true) :
    matchSequence db matcher addr stop =
      if matchesRun db matcher (walkRange db addr stop) = true ∧
          Solid db ((walkRange db addr stop).take matcher.patternCount) then
        some ((walkRange db addr stop).take matcher.patternCount)
      else none := by
  obtain ⟨n, hn⟩ : ∃ n, matcher.patternCount = n + 1 := ⟨matcher.patternCount - 1, by omega⟩
  rw [matchSequence, hn, Nat.add_sub_cancel, matchFrom_eq hstop n 1 [addr] hlt]
  have hwalk : walkRange db addr stop = _ := walkRange_of_lt hlt
  generalize (step db addr stop).elim [] (fun next => walkRange db next stop) = rest at hwalk
  rw [hwalk]
  have hiff : Confirms db matcher 1 n (addr :: rest) ↔
      matchesRun db matcher (addr :: rest) = true ∧ Solid db ((addr :: rest).take (n + 1)) := by
    unfold Confirms matchesRun Solid
    rw [hn]
    simp only [List.tail_cons, List.length_cons, List.take_succ_cons, List.zipIdx_cons,
      List.all_cons, hfirst, Bool.true_and, Bool.and_eq_true, decide_eq_true_eq, List.all_eq_true,
      Nat.add_le_add_iff_right, Nat.zero_add, and_assoc]
    refine and_congr_right fun hlen => and_congr_right fun _ => ?_
    have hdrop : (addr :: rest.take n).dropLast = (addr :: rest).take n := by
      rw [← List.take_succ_cons, List.dropLast_eq_take, List.take_take, List.length_take,
        List.length_cons]
      congr 1
      omega
    rw [hdrop]
  rw [if_congr hiff rfl rfl, List.tail_cons, List.singleton_append, List.take_succ_cons]

/-- The row that the search makes of a head, in a range with that end. -/
def codeRow (db : Idb) (matcher : PatternSet) (c : ℕ × ℕ) : Option InsnMatch :=
  (patternAt db matcher 0 c.1).bind fun (mnemonic, line) =>
    if matcher.patternCount = 1 then some ⟨hexAddr c.1, mnemonic, line, none⟩
    else (matchSequence db matcher c.1 c.2).map fun seq =>
      ⟨hexAddr c.1, mnemonic, line, some (seq.map hexAddr)⟩

/-- The row that the plain search makes of it. -/
def plainRow (db : Idb) (matcher : PatternSet) (c : ℕ × ℕ) : Option InsnMatch :=
  if matchesRun db matcher (walkRange db c.1 c.2) then runRow db matcher (walkRange db c.1 c.2)
  else none

theorem matchesRun_first {rest : List ℕ} (hcount : 1 ≤ matcher.patternCount)
    (h : matchesRun db matcher (addr :: rest) = true) :
    (patternAt db matcher 0 addr).isSome = true := by
  obtain ⟨n, hn⟩ : ∃ n, matcher.patternCount = n + 1 := ⟨matcher.patternCount - 1, by omega⟩
  simp only [matchesRun, hn, List.take_succ_cons, List.zipIdx_cons, List.all_cons,
    Bool.and_eq_true] at h
  exact h.2.1

/- One pattern asks for nothing behind its head. -/
theorem matchesRun_one {rest : List ℕ} (hone : matcher.patternCount = 1) :
    matchesRun db matcher (addr :: rest) = (patternAt db matcher 0 addr).isSome := by
  simp [matchesRun, hone]

theorem codeRow_eq {c : ℕ × ℕ} (hlt : c.1 < c.2) (hstop : c.2 < 2 ^ 64)
    (hcount : 1 ≤ matcher.patternCount) :
    codeRow db matcher c =
      if Solid db ((walkRange db c.1 c.2).take matcher.patternCount) then plainRow db matcher c
      else none := by
  have hwalk : walkRange db c.1 c.2 = _ := walkRange_of_lt hlt
  cases hpattern : patternAt db matcher 0 c.1 with
  | none =>
    have hnot : ¬ matchesRun db matcher (walkRange db c.1 c.2) = true := by
      intro h
      rw [hwalk] at h
      have hfirst := matchesRun_first hcount h
      rw [hpattern] at hfirst
      cases hfirst
    rw [codeRow, plainRow, hpattern, if_neg hnot, ite_self]
    rfl
  | some line =>
    have hfirst : (patternAt db matcher 0 c.1).isSome = true := by rw [hpattern]; rfl
    by_cases hone : matcher.patternCount = 1
    · have hsolid : Solid db ((walkRange db c.1 c.2).take matcher.patternCount) := by
        rw [hone, hwalk]
        intro a ha
        cases ha
      have hmatch : matchesRun db matcher (walkRange db c.1 c.2) = true := by
        rw [hwalk, matchesRun_one hone, hfirst]
      rw [codeRow, plainRow, if_pos hsolid, if_pos hmatch, runRow, hwalk]
      simp [hpattern, hone]
    · rw [codeRow, matchSequence_eq hstop hlt hcount hfirst, plainRow, runRow]
      by_cases hsolid : Solid db ((walkRange db c.1 c.2).take matcher.patternCount)
      · by_cases hmatch : matchesRun db matcher (walkRange db c.1 c.2) = true
        · rw [if_pos ⟨hmatch, hsolid⟩, if_pos hsolid, if_pos hmatch]
          have hhead : (walkRange db c.1 c.2).head? = some c.1 := by rw [hwalk]; rfl
          simp [hpattern, hone, hhead]
        · rw [if_neg fun h => hmatch h.1, if_pos hsolid, if_neg hmatch]
          simp [hpattern, hone]
      · rw [if_neg fun h => hsolid h.2, if_neg hsolid]
        simp [hpattern, hone]

/- A plain match has a row, which names its head. -/
theorem plainRow_isSome {c : ℕ × ℕ} (hlt : c.1 < c.2) (hcount : 1 ≤ matcher.patternCount) :
    (plainRow db matcher c).isSome = matchesRun db matcher (walkRange db c.1 c.2) := by
  have hwalk : walkRange db c.1 c.2 = _ := walkRange_of_lt hlt
  rw [plainRow]
  split
  · rename_i hmatch
    have hfirst : (patternAt db matcher 0 c.1).isSome = true := by
      rw [hwalk] at hmatch
      exact matchesRun_first hcount hmatch
    obtain ⟨line, hline⟩ := Option.isSome_iff_exists.mp hfirst
    rw [hmatch, runRow, hwalk, List.head?_cons, Option.bind_some, hline]
    rfl
  · rename_i hmatch
    simpa using hmatch

theorem plainRow_address {c : ℕ × ℕ} {row : InsnMatch} (hlt : c.1 < c.2)
    (h : plainRow db matcher c = some row) : row.address = hexAddr c.1 := by
  have hhead : (walkRange db c.1 c.2).head? = some c.1 := by rw [walkRange_of_lt hlt]; rfl
  rw [plainRow] at h
  split at h
  · rw [runRow, hhead, Option.bind_some] at h
    obtain ⟨line, -, rfl⟩ := Option.map_eq_some_iff.mp h
    rfl
  · cases h

/-! ### The loop -/

/- What one head adds to the results. -/
theorem findLoop_head {scan : InsnScanRequest} {c : ℕ × ℕ} {heads heads' : InsnHeads} {fuel : ℕ}
    {found : List InsnMatch} (hnext : heads.next db = (some c.1, heads'))
    (hends : scan.scope.rangeEndFor db c.1 = .ok c.2) (hroom : found.length < scan.maxResults) :
    findLoop db scan matcher (fuel + 1) heads found =
      findLoop db scan matcher fuel heads' (found ++ (codeRow db matcher c).toList) := by
  rw [findLoop, hnext]
  simp only [ge_iff_le, Nat.not_le.mpr hroom, if_false]
  cases hpattern : patternAt db matcher 0 c.1 with
  | none => simp [codeRow, hpattern]
  | some line =>
    by_cases hone : matcher.patternCount = 1
    · simp [codeRow, hpattern, hone]
    · cases hseq : matchSequence db matcher c.1 c.2 with
      | none => simp [codeRow, hpattern, hone, hends, hseq]
      | some seq => simp [codeRow, hpattern, hone, hends, hseq]

/- The induction is on the budget that is left; `m` rows are still wanted. -/
theorem findLoop_spec (db : Idb) (scan : InsnScanRequest) (matcher : PatternSet) (n : ℕ)
    (heads : InsnHeads) (found : List InsnMatch) (m : ℕ) (hinside : heads.Inside)
    (hn : heads.scanned + n = heads.budget)
    (hends : ∀ c ∈ heads.pending db, scan.scope.rangeEndFor db c.1 = .ok c.2)
    (hm : m = scan.maxResults - found.length) :
    ∃ heads' truncated, (∀ fuel, n < fuel → findLoop db scan matcher fuel heads found =
        some (.ok (heads',
          found ++ (((heads.pending db).take n).filterMap (codeRow db matcher)).take m,
          truncated))) ∧
      (truncated = true ↔ CutAt (codeRow db matcher) m ((heads.pending db).take n)) := by
  induction n generalizing heads found m with
  | zero =>
    refine ⟨{ heads with exhaustedBudget := true }, false, fun fuel hfuel => ?_, ?_⟩
    · obtain ⟨fuel, rfl⟩ : ∃ k, fuel = k + 1 := ⟨fuel - 1, by omega⟩
      rw [findLoop, next_spent db (by omega)]
      simp
    · rw [List.take_zero]
      exact iff_of_false Bool.false_ne_true not_cutAt_nil
  | succ n ih =>
    have hnext := next_spec db hinside
    generalize hr : heads.next db = r at hnext
    obtain ⟨out, heads'⟩ := r
    dsimp only at hnext
    cases hnext with
    | spent hspent => omega
    | ended _ room none flag scanned =>
      refine ⟨heads', false, fun fuel hfuel => ?_, ?_⟩
      · obtain ⟨fuel, rfl⟩ : ∃ k, fuel = k + 1 := ⟨fuel - 1, by omega⟩
        rw [findLoop, hr, none]
        simp
      · rw [none, List.take_nil]
        exact iff_of_false Bool.false_ne_true not_cutAt_nil
    | yields a stop _ room pending inside flag budget scanned =>
      have hhead := hends (a, stop) (by rw [pending]; exact List.mem_cons_self)
      have htail : ∀ c ∈ heads'.pending db, scan.scope.rangeEndFor db c.1 = .ok c.2 := fun c hc =>
        hends c (by rw [pending]; exact List.mem_cons_of_mem _ hc)
      rw [pending, List.take_succ_cons]
      by_cases hfull : scan.maxResults ≤ found.length
      · obtain rfl : m = 0 := by omega
        refine ⟨heads', true, fun fuel hfuel => ?_, ?_⟩
        · obtain ⟨fuel, rfl⟩ : ∃ k, fuel = k + 1 := ⟨fuel - 1, by omega⟩
          rw [findLoop, hr]
          simp [hfull]
        · exact iff_of_true rfl cutAt_zero
      · have hroom : found.length < scan.maxResults := by omega
        obtain ⟨k, rfl⟩ : ∃ k, m = k + 1 := ⟨m - 1, by omega⟩
        cases hrow : codeRow db matcher (a, stop) with
        | none =>
          obtain ⟨last, truncated, hloop, hcut⟩ :=
            ih heads' found (k + 1) inside (by omega) htail hm
          refine ⟨last, truncated, fun fuel hfuel => ?_, ?_⟩
          · obtain ⟨fuel, rfl⟩ : ∃ k, fuel = k + 1 := ⟨fuel - 1, by omega⟩
            rw [findLoop_head hr hhead hroom, hrow, Option.toList_none, List.append_nil,
              hloop fuel (by omega), List.filterMap_cons_none hrow]
          · rw [hcut, cutAt_cons_none hrow]
        | some row =>
          obtain ⟨last, truncated, hloop, hcut⟩ :=
            ih heads' (found ++ [row]) k inside (by omega) htail
              (by rw [List.length_append, List.length_singleton]; omega)
          refine ⟨last, truncated, fun fuel hfuel => ?_, ?_⟩
          · obtain ⟨fuel, rfl⟩ : ∃ k, fuel = k + 1 := ⟨fuel - 1, by omega⟩
            rw [findLoop_head hr hhead hroom, hrow, Option.toList_some,
              hloop fuel (by omega), List.filterMap_cons_some hrow, List.take_succ_cons,
              List.append_assoc, List.singleton_append]
          · rw [hcut, cutAt_cons_some hrow]

/-! ### Both searches on one list -/

theorem suffixes_walkRange (db : Idb) (start stop : ℕ) :
    suffixes (walkRange db start stop) =
      (walkRange db start stop).map fun a => walkRange db a stop := by
  induction hn : stop - start using Nat.strongRecOn generalizing start with
  | ind n ih =>
    by_cases hlt : start < stop
    · rw [walkRange_of_lt hlt]
      cases hstep : step db start stop with
      | none =>
        simp only [Option.elim_none, suffixes, List.map_cons, List.map_nil, walkRange_of_lt hlt,
          hstep]
      | some next =>
        obtain ⟨-, hup, hin⟩ := step_some hstep
        have htail := ih (stop - next) (by omega) next rfl
        simp only [Option.elim_some, suffixes, List.map_cons, htail]
        rw [walkRange_of_lt hlt, hstep, Option.elim_some]
    · rw [walkRange_of_le (by omega)]
      rfl

theorem runs_eq (db : Idb) (ranges : List (ℕ × ℕ)) :
    runs db ranges = (walkEnds db ranges).map fun c => walkRange db c.1 c.2 := by
  rw [runs, walkEnds, List.map_flatMap]
  congr 1
  funext r
  rw [suffixes_walkRange, withEnd, List.map_map]
  rfl

/- A set of patterns that compiles is not empty. -/
theorem patternCount_pos {scan : InsnScanRequest}
    {build : List Char → Bool → Except String (List Char → Bool)}
    (h : scan.matcher build = .ok matcher) : 1 ≤ matcher.patternCount := by
  rw [InsnScanRequest.matcher, PatternSet.compile] at h
  split at h
  · cases h
  · rename_i hne
    have hlen : 1 ≤ scan.patterns.length := List.length_pos_iff.mpr hne
    split at h
    · cases h
      rw [PatternSet.patternCount]
      split
      · rw [List.length_map]
        exact hlen
      · exact hlen
    · cases hregex : scan.patterns.mapM (compileRegex build scan.caseInsensitive) with
      | error e => simp [hregex, Except.map] at h
      | ok regexes =>
        simp only [hregex, Except.map, Except.ok.injEq] at h
        rw [← h, PatternSet.patternCount, length_mapM hregex]
        exact hlen

/-- The heads within the budget, each with the end of its range. -/
def candidates (db : Idb) (ranges : List (ℕ × ℕ)) (maxScan : ℕ) : List (ℕ × ℕ) :=
  (walkEnds db ranges).take maxScan

def runOf (db : Idb) (c : ℕ × ℕ) : List ℕ := walkRange db c.1 c.2

section Scope

variable {scan : InsnScanRequest} {ranges : List (ℕ × ℕ)} {c : ℕ × ℕ} {maxScan : ℕ}

theorem candidate_spec (hranges : scan.scope.ranges db = .ok ranges)
    (hc : c ∈ candidates db ranges maxScan) :
    c.1 < c.2 ∧ c.2 < 2 ^ 64 ∧ scan.scope.rangeEndFor db c.1 = .ok c.2 := by
  obtain ⟨r, hr, hlow, hhigh, hend⟩ := mem_walkEnds (List.mem_of_mem_take hc)
  obtain ⟨hstop, hrange⟩ := (ranges_spec hranges).2 r hr
  rw [hend]
  exact ⟨hhigh, hstop, hrange c.1 hlow hhigh⟩

theorem runs_take (db : Idb) (ranges : List (ℕ × ℕ)) (maxScan : ℕ) :
    (runs db ranges).take maxScan = (candidates db ranges maxScan).map (runOf db) := by
  rw [runs_eq, ← List.map_take]
  rfl

theorem plainMatches_eq (hcount : 1 ≤ matcher.patternCount)
    (hranges : scan.scope.ranges db = .ok ranges) (maxScan : ℕ) :
    plainMatches db matcher ranges maxScan =
      ((candidates db ranges maxScan).filter fun c => (plainRow db matcher c).isSome).map
        (runOf db) := by
  rw [plainMatches, runs_take, List.filter_map]
  congr 1
  exact List.filter_congr fun c hc => (plainRow_isSome (candidate_spec hranges hc).1 hcount).symm

/- The rows of the first plain matches. -/
theorem filterMap_plainMatches (hcount : 1 ≤ matcher.patternCount)
    (hranges : scan.scope.ranges db = .ok ranges) (m : ℕ) :
    ((plainMatches db matcher ranges maxScan).take m).filterMap (runRow db matcher) =
      ((candidates db ranges maxScan).filterMap (plainRow db matcher)).take m := by
  rw [plainMatches_eq hcount hranges, ← List.map_take, List.filterMap_map, ← filterMap_take]
  refine List.filterMap_congr fun c hc => ?_
  obtain ⟨hmem, hsome⟩ := List.mem_filter.mp (List.mem_of_mem_take hc)
  rw [plainRow_isSome (candidate_spec hranges hmem).1 hcount] at hsome
  rw [plainRow, if_pos hsome]
  rfl

theorem cutAt_plain_iff (hcount : 1 ≤ matcher.patternCount)
    (hranges : scan.scope.ranges db = .ok ranges) (m : ℕ) :
    CutAt (plainRow db matcher) m (candidates db ranges maxScan) ↔
      ∃ i < ((runs db ranges).take maxScan).length,
        m ≤ (plainMatches db matcher ranges i).length := by
  rw [runs_take, List.length_map]
  refine exists_congr fun i => and_congr_right fun hi => ?_
  have hlen : i ≤ maxScan := by
    rw [candidates, List.length_take] at hi
    omega
  rw [plainMatches_eq hcount hranges, List.length_map, ← length_filterMap, candidates, candidates,
    List.take_take, Nat.min_eq_left hlen]

/- No two rows of the plain search have the same address. -/
theorem plainRows_apart (hranges : scan.scope.ranges db = .ok ranges) :
    (candidates db ranges maxScan).Pairwise fun c d =>
      ∀ r s, plainRow db matcher c = some r → plainRow db matcher d = some s → r ≠ s := by
  have hheads : (candidates db ranges maxScan).Pairwise fun c d => c.1 ≠ d.1 :=
    (walkEnds_apart (ranges_spec hranges).1).sublist (List.take_sublist _ _)
  refine hheads.imp_of_mem ?_
  intro c d hc hd hne r s hr hs heq
  have hcaddr := plainRow_address (candidate_spec hranges hc).1 hr
  have hdaddr := plainRow_address (candidate_spec hranges hd).1 hs
  rw [heq, hdaddr] at hcaddr
  exact hne (hexAddr_injective hcaddr).symm

/- The search shows the first rows that it makes of the candidates. -/
theorem handleFindInsns_eq {build : List Char → Bool → Except String (List Char → Bool)}
    (hmatcher : scan.matcher build = .ok matcher) (hranges : scan.scope.ranges db = .ok ranges) :
    ∃ answer, (∀ fuel, scan.maxScan < fuel →
        handleFindInsns build fuel (some db) scan = some (.ok answer)) ∧
      answer.matched = ((candidates db ranges scan.maxScan).filterMap (codeRow db matcher)).take
        scan.maxResults ∧
      (answer.truncated = true ↔
        CutAt (codeRow db matcher) scan.maxResults (candidates db ranges scan.maxScan)) := by
  have hends : ∀ c ∈ walkEnds db ranges, scan.scope.rangeEndFor db c.1 = .ok c.2 := by
    intro c hc
    obtain ⟨r, hr, hlow, hhigh, hend⟩ := mem_walkEnds hc
    rw [hend]
    exact ((ranges_spec hranges).2 r hr).2 c.1 hlow hhigh
  obtain ⟨heads, truncated, hloop, htruncated⟩ :=
    findLoop_spec db scan matcher scan.maxScan (.new ranges scan.maxScan) [] scan.maxResults
      (fun c hc => by cases hc) (Nat.zero_add _) hends rfl
  have hpending : ((InsnHeads.new ranges scan.maxScan).pending db).take scan.maxScan =
      candidates db ranges scan.maxScan := rfl
  rw [hpending] at hloop htruncated
  let found := ((candidates db ranges scan.maxScan).filterMap (codeRow db matcher)).take
    scan.maxResults
  refine ⟨⟨scan.patterns, scan.caseInsensitive, scan.regex, scan.scope.describe, heads.scanned,
    heads.hitScanLimit, found, found.length, truncated⟩, fun fuel hfuel => ?_, rfl, htruncated⟩
  rw [handleFindInsns]
  simp only [hmatcher, ScanScope.heads, hranges, bind, Except.bind, hloop fuel hfuel,
    Option.map_some, Except.map]
  rfl

end Scope

/-- The search finds what the plain search finds, unless one of the matches it should show has
an instruction of no length before its last. -/
theorem find_insns_iff (build : List Char → Bool → Except String (List Char → Bool)) (db : Idb)
    (scan : InsnScanRequest) (matcher : PatternSet) (ranges : List (ℕ × ℕ))
    (hmatcher : scan.matcher build = .ok matcher) (hranges : scan.scope.ranges db = .ok ranges) :
    ∃ answer, (∀ fuel, scan.maxScan < fuel →
        handleFindInsns build fuel (some db) scan = some (.ok answer)) ∧
      ((answer.matched = ((plainMatches db matcher ranges scan.maxScan).take
            scan.maxResults).filterMap (runRow db matcher) ∧
          (answer.truncated = true ↔ ∃ i < ((runs db ranges).take scan.maxScan).length,
            scan.maxResults ≤ (plainMatches db matcher ranges i).length)) ↔
        ∀ run ∈ (plainMatches db matcher ranges scan.maxScan).take scan.maxResults,
          Solid db (run.take matcher.patternCount)) := by
  have hcount := patternCount_pos hmatcher
  obtain ⟨answer, hanswer, hmatched, htruncated⟩ := handleFindInsns_eq hmatcher hranges
  -- the search drops the rows of the matches that are not solid
  have hdrops : ∀ c ∈ candidates db ranges scan.maxScan, codeRow db matcher c =
      if Solid db ((runOf db c).take matcher.patternCount) then plainRow db matcher c
      else none := by
    intro c hc
    obtain ⟨hlt, hstop, -⟩ := candidate_spec hranges hc
    exact codeRow_eq hlt hstop hcount
  have hsame := take_filterMap_eq_iff hdrops (plainRows_apart hranges) scan.maxResults
  have hsolid : (∀ run ∈ (plainMatches db matcher ranges scan.maxScan).take scan.maxResults,
        Solid db (run.take matcher.patternCount)) ↔
      ∀ c ∈ ((candidates db ranges scan.maxScan).filter fun c =>
        (plainRow db matcher c).isSome).take scan.maxResults,
        Solid db ((runOf db c).take matcher.patternCount) := by
    rw [plainMatches_eq hcount hranges, ← List.map_take]
    exact List.forall_mem_map
  refine ⟨answer, hanswer, ?_⟩
  rw [hmatched, htruncated, filterMap_plainMatches hcount hranges, hsame, hsolid,
    ← cutAt_plain_iff hcount hranges]
  exact ⟨fun h => h.1, fun h => ⟨h, cutAt_iff hdrops h⟩⟩

/-- A function of two instructions, the first of `len` bytes as far as the decoder says. -/
def pushRet (len : ℕ) : Idb :=
  { oneByteCode with
    insnAt := fun a => if a = 16 then some len else some 1
    nextHead := fun a => if a < 17 then some 17 else none
    disasmLine := fun a =>
      if a = 16 then some ['p', 'u', 's', 'h', ' ', 'r', 'b', 'p'] else some ['r', 'e', 't'] }

def pushRetScan : InsnScanRequest :=
  ⟨[['p', 'u', 's', 'h'], ['r', 'e', 't']], 5, false, false, .range 16 18, 10⟩

theorem find_insns_push_ret :
    ∃ answer, handleFindInsns (fun _ _ => .error "") 11 (some (pushRet 1)) pushRetScan =
        some (.ok answer) ∧
      answer.matched = [⟨"0x10", ['p', 'u', 's', 'h'], ['p', 'u', 's', 'h', ' ', 'r', 'b', 'p'],
        some ["0x10", "0x11"]⟩] := by
  obtain ⟨answer, hanswer, hiff⟩ := find_insns_iff (fun _ _ => .error "") (pushRet 1) pushRetScan
    (.literal [['p', 'u', 's', 'h'], ['r', 'e', 't']] false) [(16, 18)] rfl rfl
  exact ⟨answer, hanswer 11 (by decide), (hiff.mpr (by decide +kernel)).1.trans (by decide +kernel)⟩

/- With an instruction of no length before it, the second is not reached. -/
theorem find_insns_no_length :
    ∃ answer, handleFindInsns (fun _ _ => .error "") 11 (some (pushRet 0)) pushRetScan =
        some (.ok answer) ∧ answer.matched = [] ∧
      plainMatches (pushRet 0) (.literal [['p', 'u', 's', 'h'], ['r', 'e', 't']] false) [(16, 18)]
        10 = [[16, 17]] :=
  ⟨_, rfl, rfl, by decide +kernel⟩

end IdaHeadless.Scan
