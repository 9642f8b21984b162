import IdaHeadless.Paging
import IdaHeadless.Signature.Render

/-!
# Growing a signature (handlers/signature.rs)

`make_signature` appends whole instructions from an address on. With an end address it covers
the range, otherwise it stops at the first pattern that is counted once; in either case it
stops when `max_length` bytes are collected. Trailing wildcards are then dropped.

The count goes through the segments one by one. The bytes of a run that goes on into the
next segment stand in no segment as a whole, so such a pattern is not found at its own
address, and what is counted once may be another place.
-/

namespace IdaHeadless.Signature

open PatternScan Text Radix
open Paging (saturatingAdd usizeMax)

/-! ### The handler -/

structure SignatureRequest where
  address : ℕ
  endAddress : Option ℕ
  wildcardOperands : Bool
  maxLength : ℕ
  format : SignatureFormat

def uniquenessStop : ℕ := 2

def insnLen (db : Idb) (addr : ℕ) : Option ℕ := (db.insnAt addr).filter (0 < ·)

/-- An absent mask, or one that is too short, leaves the bytes exact. -/
def appendInstruction (db : Idb) (sig : Sig) (addr len : ℕ) (wildcardOperands : Bool) :
    Except ToolError Sig :=
  let bytes := db.getBytes addr len
  if bytes.length ≠ len then .error (.addressOutOfRange addr)
  else
    let mask :=
      if wildcardOperands then (db.operandMask addr len).getD (List.replicate len true)
      else List.replicate len true
    .ok (sig ++ bytes.mapIdx fun index byte => ⟨byte, !(mask[index]?.getD true)⟩)

def Idb.segmentAt (db : Idb) (a : ℕ) : Option Segment :=
  db.segments.find? fun seg => seg.startAddress ≤ a && a < seg.startAddress + seg.len

structure Growth where
  sig : Sig
  cursor : ℕ
  instructions : ℕ
  unique : Bool
  deriving DecidableEq

/-- The candidate of search mode is counted once. -/
def countedOnce (db : Idb) (sig : Sig) : Bool :=
  trimTrailingWildcards sig ≠ [] &&
    countMatches db (toScanPattern (trimTrailingWildcards sig)) uniquenessStop = 1

/-- The loop. Every round appends a byte at least, so `max_length` rounds are enough. -/
def grow (db : Idb) (request : SignatureRequest) : ℕ → Growth → Except ToolError Growth
  | 0, g => .ok g
  | fuel + 1, g =>
    match insnLen db g.cursor with
    | none =>
      if g.sig = [] then
        .error (.idaError ("no instruction decodes at " ++ hexAddr g.cursor ++
          "; signatures are generated over code"))
      else .ok g
    | some len =>
      match appendInstruction db g.sig g.cursor len request.wildcardOperands with
      | .error e => .error e
      | .ok sig =>
        let g : Growth :=
          { g with sig, instructions := g.instructions + 1, cursor := saturatingAdd g.cursor len }
        let continued :=
          if request.maxLength ≤ sig.length then .ok g else grow db request fuel g
        match request.endAddress with
        | some stop => if stop ≤ g.cursor then .ok g else continued
        | none =>
          if countedOnce db sig then
            .ok { g with sig := trimTrailingWildcards sig, unique := true }
          else continued

structure SignatureResult where
  address : String
  signature : List Char
  format : SignatureFormat
  length : ℕ
  instructions : ℕ
  unique : Bool
  wildcardOperands : Bool
  truncated : Bool
  deriving DecidableEq

/-- What follows the loop. -/
def finish (db : Idb) (request : SignatureRequest) (g : Growth) :
    Except ToolError SignatureResult :=
  let recount := request.endAddress.isSome || !g.unique
  let sig := if recount then trimTrailingWildcards g.sig else g.sig
  let unique :=
    if recount && sig ≠ [] then countMatches db (toScanPattern sig) uniquenessStop = 1
    else g.unique
  if sig = [] then
    .error (.idaError ("no signature could be built at " ++ hexAddr request.address ++
      ": every byte was an operand"))
  else
    .ok {
      address := hexAddr request.address
      signature := render sig request.format
      format := request.format
      length := sig.length
      instructions := g.instructions
      unique := unique
      wildcardOperands := request.wildcardOperands
      truncated := !unique && request.endAddress.isNone && request.maxLength ≤ sig.length }

def handleMakeSignature (idb : Option Idb) (request : SignatureRequest) :
    Except ToolError SignatureResult := do
  let db ← idb.elim (.error .noDatabaseOpen) .ok
  if request.maxLength = 0 then .error (.invalidParams "max_length must be at least 1")
  else if request.endAddress.any (· ≤ request.address) then
    .error (.invalidParams ("end (" ++ hexAddr (request.endAddress.getD 0) ++
      ") must be greater than address (" ++ hexAddr request.address ++ ")"))
  else if !(db.segmentAt request.address).any (·.executable) then
    .error (.invalidParams (hexAddr request.address ++
      " is not in an executable segment; signatures are generated over code"))
  else (grow db request request.maxLength ⟨[], request.address, 0, false⟩).bind (finish db request)

/-! ### The bytes of the first instructions -/

variable {db : Idb} {request : SignatureRequest} {k j cursor cursor' : ℕ} {sig sig' : Sig}

/-- What `k` instructions from the address on are, and where the next one begins. -/
def collect (db : Idb) (request : SignatureRequest) : ℕ → Option (Sig × ℕ)
  | 0 => some ([], request.address)
  | k + 1 =>
    (collect db request k).bind fun (sig, cursor) =>
      (insnLen db cursor).bind fun len =>
        (appendInstruction db sig cursor len request.wildcardOperands).toOption.map fun sig =>
          (sig, saturatingAdd cursor len)

/-- The pattern of the instructions, without the wildcards at its end. -/
def trimmedPattern (sig : Sig) : List (Option UInt8) := toScanPattern (trimTrailingWildcards sig)

/-- A pattern with a fixed byte that matches at exactly one place. -/
def Unique (db : Idb) (sig : Sig) : Prop :=
  trimTrailingWildcards sig ≠ [] ∧ (db.hits (trimmedPattern sig)).length = 1

instance (db : Idb) (sig : Sig) : Decidable (Unique db sig) := inferInstanceAs (Decidable (_ ∧ _))

/-- Growth goes on after these bytes if an instruction follows. -/
def Continues (db : Idb) (request : SignatureRequest) (sig : Sig) (cursor : ℕ) : Prop :=
  sig.length < request.maxLength ∧
    match request.endAddress with
    | some stop => cursor < stop
    | none => ¬ Unique db sig

instance (db : Idb) (request : SignatureRequest) (sig : Sig) (cursor : ℕ) :
    Decidable (Continues db request sig cursor) :=
  match h : request.endAddress with
  | some stop => decidable_of_iff (sig.length < request.maxLength ∧ cursor < stop)
    (by simp only [Continues, h])
  | none => decidable_of_iff (sig.length < request.maxLength ∧ ¬ Unique db sig)
    (by simp only [Continues, h])

/-- Growth ends after `k` instructions. -/
structure StopsAt (db : Idb) (request : SignatureRequest) (k : ℕ) (sig : Sig) (cursor : ℕ) :
    Prop where
  pos : 0 < k
  collected : collect db request k = some (sig, cursor)
  before : ∀ j sig cursor, 0 < j → j < k → collect db request j = some (sig, cursor) →
    Continues db request sig cursor
  here : Continues db request sig cursor → insnLen db cursor = none

/-! ### One instruction more -/

theorem countedOnce_iff : countedOnce db sig = true ↔ Unique db sig := by
  rw [countedOnce, Bool.and_eq_true, decide_eq_true_iff, decide_eq_true_iff, Unique]
  apply and_congr_right
  intro hne
  have hpat : trimmedPattern sig ≠ [] := by simpa [trimmedPattern, toScanPattern] using hne
  rw [← trimmedPattern, countMatches_eq hpat, uniquenessStop]
  omega

theorem appendInstruction_length {addr len : ℕ} {wild : Bool}
    (h : appendInstruction db sig addr len wild = .ok sig') :
    sig'.length = sig.length + len := by
  simp only [appendInstruction] at h
  split at h
  · cases h
  · rename_i hlen
    have hread : (db.getBytes addr len).length = len := not_not.mp hlen
    have heq := Except.ok.inj h
    rw [← heq, List.length_append, List.length_mapIdx, hread]

theorem insnLen_pos {addr len : ℕ} (h : insnLen db addr = some len) : 0 < len := by
  have hpos := (Option.filter_eq_some_iff.mp h).2
  simpa using hpos

theorem collect_succ {p : Sig × ℕ} (h : collect db request (k + 1) = some p) :
    ∃ sig cursor len, collect db request k = some (sig, cursor) ∧ insnLen db cursor = some len ∧
      appendInstruction db sig cursor len request.wildcardOperands = .ok p.1 ∧
      p.2 = saturatingAdd cursor len := by
  rw [collect, Option.bind_eq_some_iff] at h
  obtain ⟨⟨sig, cursor⟩, hcollect, h⟩ := h
  obtain ⟨len, hlen, h⟩ := Option.bind_eq_some_iff.mp h
  obtain ⟨sig', happend, h⟩ := Option.map_eq_some_iff.mp h
  refine ⟨sig, cursor, len, hcollect, hlen, ?_, by rw [← h]⟩
  cases hresult : appendInstruction db sig cursor len request.wildcardOperands with
  | error e =>
    rw [hresult] at happend
    cases happend
  | ok s =>
    rw [hresult] at happend
    have hs : s = sig' := Option.some.inj happend
    rw [hs, ← h]

theorem collect_isSome_of_le (h : (collect db request k).isSome = true) (hj : j ≤ k) :
    (collect db request j).isSome = true := by
  induction k with
  | zero =>
    have hzero : j = 0 := by omega
    rw [hzero]
    exact h
  | succ k ih =>
    by_cases hlast : j = k + 1
    · rw [hlast]
      exact h
    · obtain ⟨p, hp⟩ := Option.isSome_iff_exists.mp h
      obtain ⟨sig, cursor, len, hcollect, -⟩ := collect_succ hp
      exact ih (by rw [hcollect]; rfl) (by omega)

theorem le_length_of_collect (h : collect db request k = some (sig, cursor)) :
    k ≤ sig.length := by
  induction k generalizing sig cursor with
  | zero => exact Nat.zero_le _
  | succ k ih =>
    obtain ⟨s, c, len, hcollect, hlen, happend, -⟩ := collect_succ h
    have hk := ih hcollect
    have hpos := insnLen_pos hlen
    have hlength := appendInstruction_length happend
    simp only at hlength
    omega

/-! ### Where growth ends -/

theorem StopsAt.isSome (h : StopsAt db request k sig cursor) :
    (collect db request k).isSome = true := by
  rw [h.collected]
  rfl

/- An instruction run that has ended is not taken up again. -/
theorem collect_succ_eq_none (h : collect db request k = some (sig, cursor))
    (hnone : insnLen db cursor = none) : collect db request (k + 1) = none := by
  simp [collect, h, hnone]

theorem StopsAt.not_lt (h : StopsAt db request k sig cursor)
    (h' : StopsAt db request j sig' cursor') : ¬ k < j := by
  intro hlt
  have hnone := h.here (h'.before k sig cursor h.pos hlt h.collected)
  have hnext := collect_isSome_of_le h'.isSome (Nat.succ_le_of_lt hlt)
  rw [collect_succ_eq_none h.collected hnone] at hnext
  cases hnext

theorem StopsAt.unique (h : StopsAt db request k sig cursor)
    (h' : StopsAt db request j sig' cursor') : k = j ∧ sig = sig' := by
  have hk : k = j := by
    have h1 := h.not_lt h'
    have h2 := h'.not_lt h
    omega
  subst hk
  have hsame := h.collected.symm.trans h'.collected
  exact ⟨rfl, congrArg Prod.fst (Option.some.inj hsame)⟩

/-- Growth has not ended within the first `k` instructions. -/
structure Growing (db : Idb) (request : SignatureRequest) (k : ℕ) (sig : Sig) (cursor : ℕ) :
    Prop where
  collected : collect db request k = some (sig, cursor)
  before : ∀ j sig cursor, 0 < j → j ≤ k → collect db request j = some (sig, cursor) →
    Continues db request sig cursor

/-- The state that the loop leaves behind. -/
def stopState (db : Idb) (request : SignatureRequest) (k : ℕ) (sig : Sig) (cursor : ℕ) : Growth :=
  if request.endAddress = none ∧ Unique db sig then ⟨trimTrailingWildcards sig, cursor, k, true⟩
  else ⟨sig, cursor, k, false⟩

/- A run without a next instruction at its very beginning, or whose next instruction cannot
be read, ends nowhere. -/
theorem Growing.not_stopsAt (h : Growing db request k sig cursor)
    (hnext : collect db request (k + 1) = none) (hfirst : insnLen db cursor = none → k = 0) :
    ¬ StopsAt db request j sig' cursor' := by
  intro hstop
  by_cases hj : j ≤ k
  · have hnone := hstop.here (h.before j sig' cursor' hstop.pos hj hstop.collected)
    have hdead := collect_succ_eq_none hstop.collected hnone
    by_cases hlt : j < k
    · have hsome := collect_isSome_of_le (by rw [h.collected]; rfl) (Nat.succ_le_of_lt hlt)
      rw [hdead] at hsome
      cases hsome
    · have hjk : j = k := by omega
      subst hjk
      have hsame := Option.some.inj (h.collected.symm.trans hstop.collected)
      have hcursor : cursor = cursor' := congrArg Prod.snd hsame
      have hzero := hfirst (by rw [hcursor]; exact hnone)
      have hpos := hstop.pos
      omega
  · have hsome := collect_isSome_of_le hstop.isSome (show k + 1 ≤ j by omega)
    rw [hnext] at hsome
    cases hsome

theorem Growing.stopsAt (h : Growing db request k sig cursor) (hpos : 0 < k)
    (hnone : insnLen db cursor = none) : StopsAt db request k sig cursor where
  pos := hpos
  collected := h.collected
  before := fun j s c hj hlt => h.before j s c hj (Nat.le_of_lt hlt)
  here := fun _ => hnone

theorem Growing.stop (h : Growing db request k sig cursor)
    (hcollect : collect db request (k + 1) = some (sig', cursor'))
    (hnot : ¬ Continues db request sig' cursor') : StopsAt db request (k + 1) sig' cursor' where
  pos := Nat.succ_pos k
  collected := hcollect
  before := fun j s c hj hlt => h.before j s c hj (Nat.le_of_lt_succ hlt)
  here := fun hc => absurd hc hnot

theorem Growing.next (h : Growing db request k sig cursor)
    (hcollect : collect db request (k + 1) = some (sig', cursor'))
    (hgo : Continues db request sig' cursor') : Growing db request (k + 1) sig' cursor' where
  collected := hcollect
  before := by
    intro j s c hj hle hcj
    by_cases hlast : j = k + 1
    · rw [hlast, hcollect] at hcj
      obtain ⟨rfl, rfl⟩ := Prod.mk.inj (Option.some.inj hcj)
      exact hgo
    · exact h.before j s c hj (by omega) hcj

/-! ### The loop -/

theorem collect_succ_of_append {len : ℕ} (h : collect db request k = some (sig, cursor))
    (hlen : insnLen db cursor = some len)
    (happend : appendInstruction db sig cursor len request.wildcardOperands = .ok sig') :
    collect db request (k + 1) = some (sig', saturatingAdd cursor len) := by
  simp [collect, h, hlen, happend, Except.toOption]

theorem collect_succ_of_error {len : ℕ} {e : ToolError}
    (h : collect db request k = some (sig, cursor)) (hlen : insnLen db cursor = some len)
    (happend : appendInstruction db sig cursor len request.wildcardOperands = .error e) :
    collect db request (k + 1) = none := by
  simp [collect, h, hlen, happend, Except.toOption]

theorem Growing.continues (h : Growing db request k sig cursor) (hpos : 0 < k) :
    Continues db request sig cursor :=
  h.before k sig cursor hpos (Nat.le_refl k) h.collected

theorem not_unique_of_continues (h : Continues db request sig cursor) :
    ¬ (request.endAddress = none ∧ Unique db sig) := by
  rintro ⟨hnone, hunique⟩
  simp only [Continues, hnone] at h
  exact h.2 hunique

/- One round, after the instruction has been appended. -/
theorem continues_or_stops {fuel : ℕ} (sig : Sig) (cursor k : ℕ) :
    let g : Growth := ⟨sig, cursor, k, false⟩
    let continued :=
      if request.maxLength ≤ sig.length then .ok g else grow db request fuel g
    (match request.endAddress with
      | some stop => if stop ≤ cursor then .ok g else continued
      | none =>
        if countedOnce db sig then .ok { g with sig := trimTrailingWildcards sig, unique := true }
        else continued) =
    (if Continues db request sig cursor then grow db request fuel g
      else .ok (stopState db request k sig cursor)) := by
  cases hend : request.endAddress with
  | some stop =>
    by_cases hcover : stop ≤ cursor
    · have hnot : ¬ Continues db request sig cursor := by
        simp only [Continues, hend]
        omega
      simp [hcover, hnot, stopState, hend]
    · by_cases hfull : request.maxLength ≤ sig.length
      · have hnot : ¬ Continues db request sig cursor := by
          simp only [Continues, hend]
          omega
        simp [hcover, hfull, hnot, stopState, hend]
      · have hgo : Continues db request sig cursor := by
          simp only [Continues, hend]
          omega
        simp [hcover, hfull, hgo]
  | none =>
    by_cases hunique : Unique db sig
    · have hnot : ¬ Continues db request sig cursor := by
        simp only [Continues, hend]
        exact fun h => h.2 hunique
      simp [countedOnce_iff.mpr hunique, hnot, stopState, hend, hunique]
    · have hcount : countedOnce db sig = false := by
        rw [← Bool.not_eq_true, countedOnce_iff]
        exact hunique
      by_cases hfull : request.maxLength ≤ sig.length
      · have hnot : ¬ Continues db request sig cursor := by
          simp only [Continues, hend]
          omega
        simp [hcount, hfull, hnot, stopState, hend, hunique]
      · have hgo : Continues db request sig cursor := by
          simp only [Continues, hend]
          exact ⟨by omega, hunique⟩
        simp [hcount, hfull, hgo]

theorem grow_succ {fuel len : ℕ} (hlen : insnLen db cursor = some len)
    (happend : appendInstruction db sig cursor len request.wildcardOperands = .ok sig') :
    grow db request (fuel + 1) ⟨sig, cursor, k, false⟩ =
      if Continues db request sig' (saturatingAdd cursor len) then
        grow db request fuel ⟨sig', saturatingAdd cursor len, k + 1, false⟩
      else .ok (stopState db request (k + 1) sig' (saturatingAdd cursor len)) := by
  rw [← continues_or_stops, grow]
  simp only [hlen, happend]

/- The loop ends where growth ends, or it fails and growth ends nowhere. -/
theorem grow_cases (hmax : 0 < request.maxLength) {fuel : ℕ} (h : Growing db request k sig cursor)
    (hfuel : request.maxLength ≤ fuel + k) :
    (∃ e, grow db request fuel ⟨sig, cursor, k, false⟩ = .error e ∧
      ∀ j s c, ¬ StopsAt db request j s c) ∨
    ∃ j s c, StopsAt db request j s c ∧
      grow db request fuel ⟨sig, cursor, k, false⟩ = .ok (stopState db request j s c) := by
  induction fuel generalizing k sig cursor with
  | zero =>
    have hlength := le_length_of_collect h.collected
    have hgo := h.continues (by omega)
    have hroom := hgo.1
    omega
  | succ fuel ih =>
    cases hlen : insnLen db cursor with
    | none =>
      have hnext := collect_succ_eq_none h.collected hlen
      by_cases hsig : sig = []
      · have hlength := le_length_of_collect h.collected
        have hk : k = 0 := by simpa [hsig] using hlength
        simp only [grow, hlen, hsig, if_true]
        refine Or.inl ⟨_, rfl, ?_⟩
        intro j s c
        exact h.not_stopsAt hnext fun _ => hk
      · have hk : 0 < k := by
          rw [Nat.pos_iff_ne_zero]
          rintro rfl
          have hstart := Option.some.inj h.collected
          exact hsig (congrArg Prod.fst hstart).symm
        have hstate : stopState db request k sig cursor = ⟨sig, cursor, k, false⟩ := by
          rw [stopState, if_neg (not_unique_of_continues (h.continues hk))]
        refine Or.inr ⟨k, sig, cursor, h.stopsAt hk hlen, ?_⟩
        rw [hstate]
        simp only [grow, hlen, hsig, if_false]
    | some len =>
      cases happend : appendInstruction db sig cursor len request.wildcardOperands with
      | error e =>
        have hnext := collect_succ_of_error h.collected hlen happend
        refine Or.inl ⟨e, by simp only [grow, hlen, happend], ?_⟩
        intro j s c
        apply h.not_stopsAt hnext
        intro hnone
        rw [hlen] at hnone
        cases hnone
      | ok sig' =>
        have hcollect := collect_succ_of_append h.collected hlen happend
        rw [grow_succ hlen happend]
        by_cases hgo : Continues db request sig' (saturatingAdd cursor len)
        · rw [if_pos hgo]
          exact ih (h.next hcollect hgo) (by omega)
        · rw [if_neg hgo]
          exact Or.inr ⟨k + 1, sig', _, h.stop hcollect hgo, rfl⟩

/-! ### What the handler answers -/

/-- The requests that the checks let through. -/
structure Admitted (db : Idb) (request : SignatureRequest) : Prop where
  maxLength_pos : 0 < request.maxLength
  end_gt : request.endAddress.all (request.address < ·) = true
  executable : (db.segmentAt request.address).any (·.executable) = true

def resultAt (db : Idb) (request : SignatureRequest) (k : ℕ) (sig : Sig) : SignatureResult where
  address := hexAddr request.address
  signature := render (trimTrailingWildcards sig) request.format
  format := request.format
  length := (trimTrailingWildcards sig).length
  instructions := k
  unique := decide (Unique db sig)
  wildcardOperands := request.wildcardOperands
  truncated := !decide (Unique db sig) && request.endAddress.isNone &&
    request.maxLength ≤ (trimTrailingWildcards sig).length

theorem trimTrailingWildcards_idem (sig : Sig) :
    trimTrailingWildcards (trimTrailingWildcards sig) = trimTrailingWildcards sig :=
  List.rdropWhile_idempotent _ _

theorem recount_eq (hne : trimTrailingWildcards sig ≠ []) :
    decide (countMatches db (toScanPattern (trimTrailingWildcards sig)) uniquenessStop = 1) =
      decide (Unique db sig) := by
  rw [decide_eq_decide, ← countedOnce_iff, countedOnce, Bool.and_eq_true, decide_eq_true_iff,
    decide_eq_true_iff]
  exact ⟨fun h => ⟨hne, h⟩, fun h => h.2⟩

/- A signature of wildcards alone is refused. -/
theorem finish_stopState_nil (hnil : trimTrailingWildcards sig = []) :
    ∃ e, finish db request (stopState db request k sig cursor) = .error e := by
  have hnot : ¬ Unique db sig := fun h => h.1 hnil
  rw [stopState, if_neg (fun h => hnot h.2)]
  simp only [finish, Bool.not_false, Bool.or_true, if_true, hnil]
  exact ⟨_, rfl⟩

theorem finish_stopState (hne : trimTrailingWildcards sig ≠ []) :
    finish db request (stopState db request k sig cursor) = .ok (resultAt db request k sig) := by
  by_cases hfound : request.endAddress = none ∧ Unique db sig
  · have hstate : stopState db request k sig cursor =
        ⟨trimTrailingWildcards sig, cursor, k, true⟩ := if_pos hfound
    simp [hstate, finish, resultAt, hfound.1, hfound.2, hne]
  · have hstate : stopState db request k sig cursor = ⟨sig, cursor, k, false⟩ := if_neg hfound
    simp [hstate, finish, resultAt, hne, recount_eq hne]

theorem handleMakeSignature_cases (h : Admitted db request) :
    (∃ e, handleMakeSignature (some db) request = .error e ∧
      ∀ k sig cursor, StopsAt db request k sig cursor → trimTrailingWildcards sig = []) ∨
    ∃ k sig cursor, StopsAt db request k sig cursor ∧ trimTrailingWildcards sig ≠ [] ∧
      handleMakeSignature (some db) request = .ok (resultAt db request k sig) := by
  have hhandle : handleMakeSignature (some db) request =
      (grow db request request.maxLength ⟨[], request.address, 0, false⟩).bind
        (finish db request) := by
    have hmax : ¬ request.maxLength = 0 := Nat.pos_iff_ne_zero.mp h.maxLength_pos
    have hend : ¬ request.endAddress.any (· ≤ request.address) = true := by
      have hgt := h.end_gt
      cases hcase : request.endAddress with
      | none => simp
      | some stop =>
        rw [hcase] at hgt
        simpa using hgt
    have hexec := h.executable
    simp only [handleMakeSignature, Option.elim_some, bind, Except.bind, if_neg hmax, if_neg hend,
      hexec, Bool.not_true, Bool.false_eq_true, if_false]
  have hstart : Growing db request 0 [] request.address :=
    ⟨rfl, fun j _ _ hj hle => absurd hle (by omega)⟩
  rcases grow_cases h.maxLength_pos hstart (Nat.le_add_right _ _) with ⟨e, herr, hnone⟩ |
    ⟨k, sig, cursor, hstop, hok⟩
  · refine Or.inl ⟨e, ?_, fun k sig cursor hstop => absurd hstop (hnone k sig cursor)⟩
    rw [hhandle, herr]
    rfl
  · rw [hhandle, hok]
    by_cases hnil : trimTrailingWildcards sig = []
    · obtain ⟨e, he⟩ := @finish_stopState_nil db request k cursor sig hnil
      refine Or.inl ⟨e, he, ?_⟩
      intro j s c hother
      rw [← (hstop.unique hother).2]
      exact hnil
    · exact Or.inr ⟨k, sig, cursor, hstop, hnil, finish_stopState hnil⟩

theorem admitted_of_ok {r : SignatureResult}
    (h : handleMakeSignature (some db) request = .ok r) : Admitted db request := by
  simp only [handleMakeSignature, Option.elim_some, bind, Except.bind] at h
  split at h
  · cases h
  · rename_i hmax
    split at h
    · cases h
    · rename_i hend
      split at h
      · cases h
      · rename_i hexec
        refine ⟨Nat.pos_of_ne_zero hmax, ?_, by simpa using hexec⟩
        cases hcase : request.endAddress with
        | none => rfl
        | some stop =>
          rw [hcase] at hend
          simpa using hend

/-! ### A pattern and its own address -/

/-- The bytes from `a` on lie in one segment. -/
def Within (db : Idb) (a n : ℕ) : Prop :=
  ∃ seg ∈ db.segments, seg.startAddress ≤ a ∧ a + n ≤ seg.startAddress + seg.len

theorem appendInstruction_value {addr len i : ℕ} {wild : Bool}
    (h : appendInstruction db sig addr len wild = .ok sig') :
    (sig'[i]?).map SignatureByte.value =
      if i < sig.length then (sig[i]?).map SignatureByte.value
      else (db.getBytes addr len)[i - sig.length]? := by
  simp only [appendInstruction] at h
  split at h
  · cases h
  · rw [← Except.ok.inj h]
    by_cases hi : i < sig.length
    · rw [if_pos hi, List.getElem?_append_left hi]
    · rw [if_neg hi, List.getElem?_append_right (by omega), List.getElem?_mapIdx, Option.map_map]
      exact congrFun Option.map_id _

/- Each collected byte is the one at its place behind the address, wherever a segment is. -/
theorem collect_byte (haddr : request.address < 2 ^ 64)
    (h : collect db request k = some (sig, cursor)) :
    cursor = saturatingAdd request.address sig.length ∧
      ∀ seg ∈ db.segments, ∀ i offset, request.address + i = seg.startAddress + offset →
        offset < seg.len → i < sig.length →
        (sig[i]?).map SignatureByte.value = seg.bytes[offset]? := by
  induction k generalizing sig cursor with
  | zero =>
    obtain ⟨rfl, rfl⟩ := Prod.mk.inj (Option.some.inj h)
    refine ⟨?_, fun seg _ i offset _ _ hi => absurd hi (by simp)⟩
    rw [saturatingAdd, usizeMax, List.length_nil, Nat.add_zero, Nat.min_eq_left (by omega)]
  | succ k ih =>
    obtain ⟨s, c, len, hcollect, hlen, happend, hcursor⟩ := collect_succ h
    obtain ⟨hc, hbytes⟩ := ih hcollect
    have hlength := appendInstruction_length happend
    simp only at hcursor hlength
    constructor
    · rw [hcursor, hc, hlength, saturatingAdd, saturatingAdd, saturatingAdd, usizeMax]
      omega
    · intro seg hseg i offset hat hoff hi
      rw [appendInstruction_value happend]
      split
      · rename_i hold
        exact hbytes seg hseg i offset hat hoff hold
      · rename_i hnew
        -- A cursor that has saturated lies behind every segment.
        have hend := seg.end_lt
        have hseglen : seg.len = seg.bytes.length := rfl
        have hplace : c + (i - s.length) = seg.startAddress + offset := by
          rw [hc, saturatingAdd, usizeMax]
          omega
        have hread : i - s.length < (db.getBytes c len).length := by
          have hfull : (db.getBytes c len).length = len := by
            by_contra hne
            simp [appendInstruction, hne] at happend
          omega
        exact db.getBytes_byte seg hseg c len (i - s.length) offset hplace hoff hread

theorem mem_hits {a : ℕ} {pat : List (Option UInt8)} :
    a ∈ db.hits pat ↔
      ∃ seg ∈ db.segments, ∃ offset ∈ occurrences pat seg.bytes, seg.startAddress + offset = a := by
  simp [Idb.hits, Segment.hits]

theorem length_trimmedPattern (sig : Sig) :
    (trimmedPattern sig).length = (trimTrailingWildcards sig).length := by
  simp [trimmedPattern, toScanPattern]

theorem own_address_of_within (hne : trimTrailingWildcards sig ≠ [])
    (h : collect db request k = some (sig, cursor))
    (hwithin : Within db request.address (trimTrailingWildcards sig).length) :
    request.address ∈ db.hits (trimmedPattern sig) := by
  obtain ⟨seg, hseg, hstart, hend⟩ := hwithin
  have hpos : 0 < (trimTrailingWildcards sig).length := List.length_pos_iff.mpr hne
  have hlt := seg.end_lt
  have hseglen : seg.len = seg.bytes.length := rfl
  have hbytes := (collect_byte (by omega) h).2 seg hseg
  have hprefix : trimTrailingWildcards sig <+: sig := List.rdropWhile_prefix _ _
  refine mem_hits.mpr ⟨seg, hseg, request.address - seg.startAddress, ?_, by omega⟩
  refine mem_occurrences.mpr ⟨by omega, matchesHead_iff.mpr ⟨?_, ?_⟩⟩
  · rw [length_trimmedPattern, List.length_drop]
    omega
  · intro i a hi
    rw [trimmedPattern, toScanPattern, List.getElem?_map, Option.map_eq_some_iff] at hi
    obtain ⟨b, hb, hscan⟩ := hi
    have hlen : i < (trimTrailingWildcards sig).length := by
      by_contra hge
      rw [List.getElem?_eq_none (by omega)] at hb
      cases hb
    have hsig : sig[i]? = some b := by
      obtain ⟨rest, hrest⟩ := hprefix
      rw [← hb, ← List.getElem?_append_left hlen, hrest]
    have hvalue : b.value = a := by
      simp only [SignatureByte.scan] at hscan
      split at hscan
      · cases hscan
      · exact Option.some.inj hscan
    have hplace := hbytes i (request.address - seg.startAddress + i) (by omega) (by omega)
      (Nat.lt_of_lt_of_le hlen hprefix.length_le)
    rw [List.getElem?_drop, ← hplace, hsig, Option.map_some, hvalue]

theorem within_of_own_address (h : request.address ∈ db.hits (trimmedPattern sig)) :
    Within db request.address (trimTrailingWildcards sig).length := by
  obtain ⟨seg, hseg, offset, hocc, hat⟩ := mem_hits.mp h
  have hle := add_length_le_of_mem_occurrences hocc
  rw [length_trimmedPattern] at hle
  have hseglen : seg.len = seg.bytes.length := rfl
  exact ⟨seg, hseg, by omega, by omega⟩

theorem hits_eq_own_iff (hunique : Unique db sig) (h : collect db request k = some (sig, cursor)) :
    db.hits (trimmedPattern sig) = [request.address] ↔
      Within db request.address (trimTrailingWildcards sig).length := by
  constructor
  · intro heq
    apply within_of_own_address
    rw [heq]
    exact List.mem_singleton_self _
  · intro hwithin
    have hmem := own_address_of_within hunique.1 h hwithin
    obtain ⟨a, ha⟩ := List.length_eq_one_iff.mp hunique.2
    rw [ha, List.mem_singleton] at hmem
    rw [ha, hmem]

/-! ### What an answer promises, and when it keeps it -/

structure Sound (db : Idb) (request : SignatureRequest) (r : SignatureResult) : Prop where
  /- A pattern called unique matches at the requested address and nowhere else. -/
  unique_here : r.unique = true →
    (∃ pat, readBack r.signature r.format = some pat ∧ db.hits pat = [request.address]) ∧
    (r.format = .ida ∨ r.format = .x64dbg → ∀ n, 0 < n →
      handleFindBytes (some db) r.signature n =
        .ok { pattern := r.signature, matched := [hexAddr request.address], count := 1 })
  /- In search mode it is that of the shortest run of instructions that has a unique one. -/
  shortest : request.endAddress = none → r.unique = true →
    (∃ sig cursor, collect db request r.instructions = some (sig, cursor) ∧ Unique db sig ∧
      readBack r.signature r.format = some (trimmedPattern sig)) ∧
    ∀ j sig cursor, 0 < j → j < r.instructions → collect db request j = some (sig, cursor) →
      ¬ Unique db sig
  /- There it is called truncated when growth ended at the length limit without one. -/
  truncated_iff : request.endAddress = none →
    (r.truncated = true ↔ r.unique = false ∧ ∃ sig cursor,
      collect db request r.instructions = some (sig, cursor) ∧ request.maxLength ≤ sig.length)

/-- Where growth ends, a unique pattern lies in one segment, and in search mode the length
limit is not reached by wildcards that are dropped. -/
def Kept (db : Idb) (request : SignatureRequest) : Prop :=
  Admitted db request → ∀ k sig cursor, StopsAt db request k sig cursor →
    trimTrailingWildcards sig ≠ [] →
      (Unique db sig → Within db request.address (trimTrailingWildcards sig).length) ∧
      (request.endAddress = none → ¬ Unique db sig → request.maxLength ≤ sig.length →
        request.maxLength ≤ (trimTrailingWildcards sig).length)

theorem readBack_resultAt (hne : trimTrailingWildcards sig ≠ []) :
    readBack (resultAt db request k sig).signature (resultAt db request k sig).format =
      some (trimmedPattern sig) := by
  apply readBack_render
  rw [trimTrailingWildcards_idem]
  exact hne

theorem findBytes_resultAt (hne : trimTrailingWildcards sig ≠ [])
    (hhits : db.hits (trimmedPattern sig) = [request.address])
    (hformat : request.format = .ida ∨ request.format = .x64dbg) {n : ℕ} (hn : 0 < n) :
    handleFindBytes (some db) (resultAt db request k sig).signature n =
      .ok { pattern := (resultAt db request k sig).signature
            matched := [hexAddr request.address], count := 1 } := by
  have hparse : parsePattern (resultAt db request k sig).signature =
      .ok (trimmedPattern sig) := by
    apply parsePattern_render _ hformat
    rw [trimTrailingWildcards_idem]
    exact hne
  have hpat : trimmedPattern sig ≠ [] := by simpa [trimmedPattern, toScanPattern] using hne
  obtain ⟨m, rfl⟩ : ∃ m, n = m + 1 := ⟨n - 1, by omega⟩
  rw [handleFindBytes_eq hparse hpat, hhits, List.take_succ_cons, List.take_nil, List.map_cons,
    List.map_nil, List.length_singleton, Nat.min_eq_right (by omega)]

theorem collected_at (hstop : StopsAt db request k sig cursor) {P : Sig → Prop} :
    (∃ s c, collect db request k = some (s, c) ∧ P s) ↔ P sig := by
  constructor
  · rintro ⟨s, c, hcollect, hp⟩
    obtain ⟨rfl, rfl⟩ := Prod.mk.inj (Option.some.inj (hcollect.symm.trans hstop.collected))
    exact hp
  · intro hp
    exact ⟨sig, cursor, hstop.collected, hp⟩

theorem sound_resultAt_iff (hstop : StopsAt db request k sig cursor)
    (hne : trimTrailingWildcards sig ≠ []) :
    Sound db request (resultAt db request k sig) ↔
      (Unique db sig → Within db request.address (trimTrailingWildcards sig).length) ∧
      (request.endAddress = none → ¬ Unique db sig → request.maxLength ≤ sig.length →
        request.maxLength ≤ (trimTrailingWildcards sig).length) := by
  have hunique : (resultAt db request k sig).unique = true ↔ Unique db sig := by simp [resultAt]
  have htrimmed : (trimTrailingWildcards sig).length ≤ sig.length :=
    (List.rdropWhile_prefix SignatureByte.wildcard sig).length_le
  have htruncated : (resultAt db request k sig).truncated = true ↔ ¬ Unique db sig ∧
      request.endAddress = none ∧ request.maxLength ≤ (trimTrailingWildcards sig).length := by
    simp [resultAt, and_assoc]
  constructor
  · intro hsound
    constructor
    · intro hu
      obtain ⟨⟨pat, hread, hhits⟩, -⟩ := hsound.unique_here (hunique.mpr hu)
      have hpat : pat = trimmedPattern sig :=
        Option.some.inj (hread.symm.trans (readBack_resultAt hne))
      rw [hpat] at hhits
      exact (hits_eq_own_iff hu hstop.collected).mp hhits
    · intro hsearch hnot hfull
      have hreported := (hsound.truncated_iff hsearch).mpr
        ⟨by simpa [resultAt] using hnot, sig, cursor, hstop.collected, hfull⟩
      exact (htruncated.mp hreported).2.2
  · rintro ⟨hwithin, hlimit⟩
    refine ⟨?_, ?_, ?_⟩
    · intro hu
      have hu' : Unique db sig := hunique.mp hu
      have hhits := (hits_eq_own_iff hu' hstop.collected).mpr (hwithin hu')
      refine ⟨⟨_, readBack_resultAt hne, hhits⟩, ?_⟩
      intro hformat n hn
      exact findBytes_resultAt hne hhits hformat hn
    · intro hsearch hu
      refine ⟨⟨sig, cursor, hstop.collected, hunique.mp hu, readBack_resultAt hne⟩, ?_⟩
      intro j s c hj hlt hcollect hearlier
      exact not_unique_of_continues (hstop.before j s c hj hlt hcollect) ⟨hsearch, hearlier⟩
    · intro hsearch
      have hfalse : (resultAt db request k sig).unique = false ↔ ¬ Unique db sig := by
        simp [resultAt]
      have hcollected : (∃ s c, collect db request k = some (s, c) ∧
          request.maxLength ≤ s.length) ↔ request.maxLength ≤ sig.length :=
        @collected_at db request k cursor sig hstop fun s => request.maxLength ≤ s.length
      rw [htruncated, hfalse, show (resultAt db request k sig).instructions = k from rfl,
        hcollected]
      constructor
      · rintro ⟨hnot, -, hle⟩
        exact ⟨hnot, by omega⟩
      · rintro ⟨hnot, hfull⟩
        exact ⟨hnot, hsearch, hlimit hsearch hnot hfull⟩

/-- A signature is what its answer calls it exactly if growth ends where a unique pattern lies in
one segment, and the length limit is not used up by wildcards that are dropped. -/
theorem signature_sound_iff (db : Idb) (request : SignatureRequest) :
    (∀ r, handleMakeSignature (some db) request = .ok r → Sound db request r) ↔
      Kept db request := by
  constructor
  · intro hsound hadmitted k sig cursor hstop hne
    rcases handleMakeSignature_cases hadmitted with ⟨e, -, hnone⟩ | ⟨j, s, c, hstop', -, hok⟩
    · exact absurd (hnone k sig cursor hstop) hne
    · obtain ⟨rfl, rfl⟩ := hstop.unique hstop'
      exact (sound_resultAt_iff hstop hne).mp (hsound _ hok)
  · intro hkept r hr
    have hadmitted := admitted_of_ok hr
    rcases handleMakeSignature_cases hadmitted with ⟨e, herr, -⟩ | ⟨k, sig, c, hstop, hne, hok⟩
    · rw [herr] at hr
      cases hr
    · have hsame : resultAt db request k sig = r := Except.ok.inj (hok.symm.trans hr)
      rw [← hsame]
      exact (sound_resultAt_iff hstop hne).mpr (hkept hadmitted k sig c hstop hne)

/-- Two segments that meet, and a third with a copy of the bytes around their border. -/
def borderDb : Idb :=
  .ofSegments
    [⟨0x1000, [0xAA], true, by decide⟩, ⟨0x1001, [0xBB], true, by decide⟩,
      ⟨0x2000, [0xAA, 0xBB], true, by decide⟩]
    (by decide) (fun _ => some 1) fun _ _ => none

def borderRequest : SignatureRequest := ⟨0x1000, none, false, 16, .ida⟩

def borderResult : SignatureResult :=
  ⟨"0x1000", "AA BB".toList, .ida, 2, 2, true, false, false⟩

/-- The same call twice: five bytes are collected, four of them operands. -/
def callDb : Idb :=
  .ofSegments [⟨0x1000, [0xE8, 1, 0, 0, 0, 0xE8, 1, 0, 0, 0], true, by decide⟩] (by decide)
    (fun _ => some 5) fun _ _ => some [true, false, false, false, false]

def callRequest : SignatureRequest := ⟨0x1000, none, true, 3, .ida⟩

def callResult : SignatureResult := ⟨"0x1000", "E8".toList, .ida, 1, 1, false, true, false⟩

theorem signature_not_sound :
    (handleMakeSignature (some borderDb) borderRequest = .ok borderResult ∧
      ¬ Sound borderDb borderRequest borderResult) ∧
    handleMakeSignature (some callDb) callRequest = .ok callResult ∧
      ¬ Sound callDb callRequest callResult := by
  have hborder : handleMakeSignature (some borderDb) borderRequest = .ok borderResult := by
    decide +kernel
  have hcall : handleMakeSignature (some callDb) callRequest = .ok callResult := by decide +kernel
  refine ⟨⟨hborder, ?_⟩, hcall, ?_⟩
  · intro hsound
    obtain ⟨⟨pat, hread, hhits⟩, -⟩ := hsound.unique_here rfl
    have hpat : readBack borderResult.signature borderResult.format =
        some [some 0xAA, some 0xBB] := by decide +kernel
    have hother : borderDb.hits [some 0xAA, some 0xBB] = [0x2000] := by decide +kernel
    rw [Option.some.inj (hread.symm.trans hpat), hother] at hhits
    simp [borderRequest] at hhits
  · intro hsound
    have hcollect : collect callDb callRequest callResult.instructions =
        some ([⟨0xE8, false⟩, ⟨1, true⟩, ⟨0, true⟩, ⟨0, true⟩, ⟨0, true⟩], 0x1005) := by
      decide +kernel
    have hreported := (hsound.truncated_iff rfl).mpr ⟨rfl, _, _, hcollect, by decide⟩
    cases hreported

end IdaHeadless.Signature
