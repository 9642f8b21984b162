import IdaHeadless.PatternScan
import IdaHeadless.Radix
import IdaHeadless.ToolError
import Mathlib.Algebra.Group.Nat.Defs
import Mathlib.Tactic.Common

/-!
# Byte search (handlers/mod.rs, handlers/search.rs, handlers/signature.rs)

A database is seen through its segments and its reads. A read that stays inside one segment
is answered in full, and every byte of an answer is the one that stands at its address; what
a read returns outside the segments is open. `find_bytes` and
`count_matches` go through every segment in chunks that overlap, the first collecting
addresses and the second counting them.
-/

namespace IdaHeadless.Signature

open PatternScan Text Radix

/-! ### The database -/

/-- The end address of a segment is a `u64` too. -/
structure Segment where
  startAddress : ℕ
  bytes : List UInt8
  executable : Bool
  end_lt : startAddress + bytes.length < 2 ^ 64

def Segment.len (seg : Segment) : ℕ := seg.bytes.length

/- `insn_at` is read for the length of the instruction alone. -/
structure Idb where
  segments : List Segment
  getBytes : ℕ → ℕ → List UInt8
  insnAt : ℕ → Option ℕ
  operandMask : ℕ → ℕ → Option (List Bool)
  length_getBytes : ∀ seg ∈ segments, ∀ offset n, offset + n ≤ seg.len →
    (getBytes (seg.startAddress + offset) n).length = n
  getBytes_byte : ∀ seg ∈ segments, ∀ a n i offset, a + i = seg.startAddress + offset →
    offset < seg.len → i < (getBytes a n).length → (getBytes a n)[i]? = seg.bytes[offset]?

theorem Idb.getBytes_segment (db : Idb) {seg : Segment} (hseg : seg ∈ db.segments) {offset n : ℕ}
    (hn : offset + n ≤ seg.len) :
    db.getBytes (seg.startAddress + offset) n = (seg.bytes.drop offset).take n := by
  have hlen := db.length_getBytes seg hseg offset n hn
  apply List.ext_getElem?
  intro i
  by_cases hi : i < n
  · rw [db.getBytes_byte seg hseg _ n i (offset + i) (by omega) (by omega) (by omega),
      List.getElem?_take_of_lt hi, List.getElem?_drop]
  · rw [List.getElem?_eq_none (by omega), List.getElem?_take_eq_none (by omega)]

/-- A memory made of segments that do not meet. A read ends at the first address without a
byte. -/
def byteAt (segs : List Segment) (a : ℕ) : Option UInt8 :=
  segs.findSome? fun seg => if seg.startAddress ≤ a then seg.bytes[a - seg.startAddress]? else none

def readFrom (mem : ℕ → Option UInt8) (a : ℕ) : ℕ → List UInt8
  | 0 => []
  | n + 1 => (mem a).elim [] fun b => b :: readFrom mem (a + 1) n

def Apart (segs : List Segment) : Prop :=
  segs.Pairwise fun s t =>
    s.startAddress + s.len ≤ t.startAddress ∨ t.startAddress + t.len ≤ s.startAddress

instance (segs : List Segment) : Decidable (Apart segs) :=
  inferInstanceAs (Decidable (List.Pairwise _ segs))

theorem byteAt_segment {segs : List Segment} (h : Apart segs) {seg : Segment} (hseg : seg ∈ segs)
    {i : ℕ} (hi : i < seg.len) : byteAt segs (seg.startAddress + i) = seg.bytes[i]? := by
  have hlen : i < seg.bytes.length := hi
  induction segs with
  | nil => cases hseg
  | cons s segs ih =>
    rw [Apart, List.pairwise_cons] at h
    rw [byteAt, List.findSome?_cons]
    rcases List.mem_cons.mp hseg with heq | hmem
    · rw [← heq, if_pos (Nat.le_add_right _ _), Nat.add_sub_cancel_left,
        List.getElem?_eq_getElem hlen]
    · have hout : (if s.startAddress ≤ seg.startAddress + i then
          s.bytes[seg.startAddress + i - s.startAddress]? else none) = none := by
        have hapart := h.1 seg hmem
        have hs : s.len = s.bytes.length := rfl
        split
        · rw [List.getElem?_eq_none]
          omega
        · rfl
      rw [hout]
      exact ih h.2 hmem

theorem readFrom_getElem {mem : ℕ → Option UInt8} {a n i : ℕ}
    (hi : i < (readFrom mem a n).length) : (readFrom mem a n)[i]? = mem (a + i) := by
  induction n generalizing a i with
  | zero => simp [readFrom] at hi
  | succ n ih =>
    cases hmem : mem a with
    | none => simp [readFrom, hmem] at hi
    | some b =>
      simp only [readFrom, hmem, Option.elim_some, List.length_cons] at hi ⊢
      cases i with
      | zero => simpa using hmem.symm
      | succ i =>
        have hrest : i < (readFrom mem (a + 1) n).length := by omega
        rw [List.getElem?_cons_succ, ih hrest, Nat.add_assoc, Nat.add_comm 1 i]

theorem length_readFrom {mem : ℕ → Option UInt8} {a n : ℕ}
    (h : ∀ i < n, (mem (a + i)).isSome = true) : (readFrom mem a n).length = n := by
  induction n generalizing a with
  | zero => rfl
  | succ n ih =>
    have hhead : (mem a).isSome = true := h 0 (by omega)
    obtain ⟨b, hb⟩ := Option.isSome_iff_exists.mp hhead
    have hrest : (readFrom mem (a + 1) n).length = n := by
      apply ih
      intro i hi
      have hshift : a + 1 + i = a + (i + 1) := by omega
      rw [hshift]
      exact h (i + 1) (by omega)
    simp only [readFrom, hb, Option.elim_some, List.length_cons, hrest]

def Idb.ofSegments (segs : List Segment) (h : Apart segs) (insnAt : ℕ → Option ℕ)
    (operandMask : ℕ → ℕ → Option (List Bool)) : Idb where
  segments := segs
  getBytes := readFrom (byteAt segs)
  insnAt := insnAt
  operandMask := operandMask
  length_getBytes := by
    intro seg hseg offset n hn
    apply length_readFrom
    intro i hi
    have hlen : offset + i < seg.bytes.length := by
      have hle : seg.len = seg.bytes.length := rfl
      omega
    rw [Nat.add_assoc, byteAt_segment h hseg hlen, List.getElem?_eq_getElem hlen]
    rfl
  getBytes_byte := by
    intro seg hseg a n i offset hat hoff hi
    rw [readFrom_getElem hi, hat, byteAt_segment h hseg hoff]

/-! ### The pattern of a request -/

/- `String::from_utf8_lossy` of one byte and of two. -/
def lossyByte (b : UInt8) : Char := if b < 0x80 then Char.ofNat b.toNat else '\uFFFD'

/-- The two bytes begin a longer character, which is replaced as a whole. -/
def beginsLonger (a b : UInt8) : Bool :=
  (a = 0xE0 && 0xA0 ≤ b && b ≤ 0xBF) ||
    (0xE1 ≤ a && a ≤ 0xEF && a ≠ 0xED && 0x80 ≤ b && b ≤ 0xBF) ||
    (a = 0xED && 0x80 ≤ b && b ≤ 0x9F) || (a = 0xF0 && 0x90 ≤ b && b ≤ 0xBF) ||
    (0xF1 ≤ a && a ≤ 0xF3 && 0x80 ≤ b && b ≤ 0xBF) || (a = 0xF4 && 0x80 ≤ b && b ≤ 0x8F)

def lossyPair (a b : UInt8) : List Char :=
  if 0xC2 ≤ a ∧ a ≤ 0xDF ∧ 0x80 ≤ b ∧ b ≤ 0xBF then
    [Char.ofNat ((a.toNat - 0xC0) * 64 + (b.toNat - 0x80))]
  else if beginsLonger a b then ['\uFFFD']
  else [lossyByte a, lossyByte b]

def utf8 (cs : List Char) : List UInt8 := cs.flatMap String.utf8EncodeChar

/- `as_bytes().chunks(2)`, each chunk as a text. -/
def chunkTokens : List UInt8 → List (List Char)
  | a :: b :: bytes => lossyPair a b :: chunkTokens bytes
  | [a] => [[lossyByte a]]
  | [] => []

/- `trim_start_matches("0x")`. -/
def trimHexMarks : List Char → List Char
  | '0' :: 'x' :: cs => trimHexMarks cs
  | cs => cs

def parseToken (tok : List Char) : Except ToolError (Option UInt8) :=
  if tok = ['?'] ∨ tok = ['?', '?'] then .ok none
  else match parseUnsigned 16 256 (trimHexMarks tok) with
    | some b => .ok (some (UInt8.ofNat b))
    | none => .error (.idaError ("invalid byte: " ++ String.ofList tok))

def parsePattern (pattern : List Char) : Except ToolError (List (Option UInt8)) :=
  let trimmed := trim pattern
  if trimmed = [] then .error (.idaError "empty pattern")
  else if trimmed.contains ' ' then (words trimmed).mapM parseToken
  else if (utf8 trimmed).length % 2 ≠ 0 then
    .error (.idaError ("invalid hex pattern length: " ++ String.ofList trimmed))
  else (chunkTokens (utf8 trimmed)).mapM parseToken

/-! ### `find_bytes` -/

def chunkSize : ℕ := 1024 * 1024

/-- Every fixed byte of the pattern is compared with the byte at its place. -/
def windowMatches (pat : List (Option UInt8)) (window : List UInt8) : Bool :=
  (pat.zip window).all fun (want, got) => want.all (· = got)

/-- The loop over the windows of one chunk, whose first byte stands at `base`. -/
def findInChunk (pat : List (Option UInt8)) (bytes : List UInt8) (base maxResults : ℕ) :
    List ℕ → List String → List String
  | [], found => found
  | i :: is, found =>
    if maxResults ≤ found.length then found
    else if windowMatches pat (bytes.drop i) then
      findInChunk pat bytes base maxResults is (found ++ [hexAddr (base + i)])
    else findInChunk pat bytes base maxResults is found

/-- The loop over the chunks of one segment. Every round moves on by a chunk, so a segment
takes at most as many rounds as it has bytes. -/
def findInSegment (db : Idb) (pat : List (Option UInt8)) (seg : Segment) (maxResults : ℕ) :
    ℕ → ℕ → List String → List String
  | 0, _, found => found
  | fuel + 1, offset, found =>
    if offset < seg.len ∧ found.length < maxResults then
      let remaining := seg.len - offset
      let readLen := min remaining (chunkSize + (pat.length - 1))
      let bytes := db.getBytes (seg.startAddress + offset) readLen
      if bytes.length < pat.length then found
      else
        let found := findInChunk pat bytes (seg.startAddress + offset) maxResults
          (List.range (bytes.length - pat.length + 1)) found
        if remaining ≤ chunkSize then found
        else findInSegment db pat seg maxResults fuel (offset + chunkSize) found
    else found

def findInSegments (db : Idb) (pat : List (Option UInt8)) (maxResults : ℕ) :
    List Segment → List String → List String
  | [], found => found
  | seg :: segs, found =>
    let found := findInSegment db pat seg maxResults seg.len 0 found
    if maxResults ≤ found.length then found else findInSegments db pat maxResults segs found

structure FindBytesResult where
  pattern : List Char
  matched : List String
  count : ℕ
  deriving DecidableEq

def handleFindBytes (idb : Option Idb) (pattern : List Char) (maxResults : ℕ) :
    Except ToolError FindBytesResult := do
  let db ← idb.elim (.error .noDatabaseOpen) .ok
  let pat ← parsePattern pattern
  if pat = [] then .error (.idaError "empty pattern")
  else
    let found := findInSegments db pat maxResults db.segments []
    .ok { pattern, matched := found, count := found.length }

/-! ### `count_matches` -/

def windows (n : ℕ) (bytes : List UInt8) : List (List UInt8) :=
  (List.range (bytes.length - n + 1)).map fun i => (bytes.drop i).take n

/-- An early `return` is the error of the loops. -/
def countInChunk (pat : List (Option UInt8)) (stopAt : ℕ) :
    List (List UInt8) → ℕ → Except ℕ ℕ
  | [], found => .ok found
  | window :: rest, found =>
    if windowMatches pat window then
      if stopAt ≤ found + 1 then .error (found + 1) else countInChunk pat stopAt rest (found + 1)
    else countInChunk pat stopAt rest found

def countInSegment (db : Idb) (pat : List (Option UInt8)) (seg : Segment) (stopAt : ℕ) :
    ℕ → ℕ → ℕ → Except ℕ ℕ
  | 0, _, found => .ok found
  | fuel + 1, offset, found =>
    if offset < seg.len then
      let remaining := seg.len - offset
      let readLen := min remaining (chunkSize + (pat.length - 1))
      let bytes := db.getBytes (seg.startAddress + offset) readLen
      if bytes.length < pat.length then .ok found
      else
        (countInChunk pat stopAt (windows pat.length bytes) found).bind fun found =>
          if remaining ≤ chunkSize then .ok found
          else countInSegment db pat seg stopAt fuel (offset + chunkSize) found
    else .ok found

def countInSegments (db : Idb) (pat : List (Option UInt8)) (stopAt : ℕ) :
    List Segment → ℕ → Except ℕ ℕ
  | [], found => .ok found
  | seg :: segs, found =>
    (countInSegment db pat seg stopAt seg.len 0 found).bind (countInSegments db pat stopAt segs)

def countMatches (db : Idb) (pat : List (Option UInt8)) (stopAt : ℕ) : ℕ :=
  if pat.length = 0 then 0
  else match countInSegments db pat stopAt db.segments 0 with
    | .ok found => found
    | .error found => found

/-! ### The plain scan -/

variable {db : Idb} {pat : List (Option UInt8)} {seg : Segment} {maxResults stopAt fuel offset : ℕ}

/-- The addresses at which the pattern matches wholly inside the segment, ascending. -/
def Segment.hits (pat : List (Option UInt8)) (seg : Segment) : List ℕ :=
  (occurrences pat seg.bytes).map (seg.startAddress + ·)

def Idb.hits (db : Idb) (pat : List (Option UInt8)) : List ℕ :=
  db.segments.flatMap (Segment.hits pat)

/-- What the loops still have to go through of a segment, from `offset` on. -/
def Segment.hitsFrom (pat : List (Option UInt8)) (seg : Segment) (offset : ℕ) : List ℕ :=
  (occurrences pat (seg.bytes.drop offset)).map (seg.startAddress + offset + ·)

theorem Segment.hitsFrom_zero : seg.hitsFrom pat 0 = seg.hits pat := by
  simp [Segment.hitsFrom, Segment.hits]

theorem Segment.hitsFrom_short (h : seg.len < offset + pat.length) :
    seg.hitsFrom pat offset = [] := by
  have hlen : (seg.bytes.drop offset).length < pat.length ∨ seg.bytes.drop offset = [] := by
    rw [List.drop_eq_nil_iff, List.length_drop]
    have hle : seg.len = seg.bytes.length := rfl
    omega
  rw [Segment.hitsFrom, List.map_eq_nil_iff]
  rcases hlen with hlen | hlen
  · exact occurrences_eq_nil_of_short hlen
  · rw [hlen]
    rfl

/-- One read: a chunk and the overlap, or the rest of the segment. -/
def Segment.chunk (pat : List (Option UInt8)) (seg : Segment) (offset : ℕ) : List UInt8 :=
  (seg.bytes.drop offset).take (chunkSize + (pat.length - 1))

theorem getBytes_chunk (hseg : seg ∈ db.segments) (hlt : offset < seg.len) :
    db.getBytes (seg.startAddress + offset)
      (min (seg.len - offset) (chunkSize + (pat.length - 1))) = seg.chunk pat offset := by
  have hread : offset + min (seg.len - offset) (chunkSize + (pat.length - 1)) ≤ seg.len := by omega
  rw [db.getBytes_segment hseg hread, Segment.chunk]
  have hlen : (seg.bytes.drop offset).length = seg.len - offset := List.length_drop
  rw [← hlen, Nat.min_comm, ← List.take_eq_take_min]

/- A chunk too short for the pattern is the end of the segment. -/
theorem hitsFrom_of_chunk_short (hpos : 0 < pat.length)
    (h : (seg.chunk pat offset).length < pat.length) : seg.hitsFrom pat offset = [] := by
  apply Segment.hitsFrom_short
  rw [Segment.chunk, List.length_take, List.length_drop] at h
  have hchunk : 0 < chunkSize := by decide
  have hle : seg.len = seg.bytes.length := rfl
  omega

/- The hits from an offset on are those of its chunk and those from the next chunk on. -/
theorem hitsFrom_chunk (hpos : 0 < pat.length) (h : chunkSize < seg.len - offset) :
    seg.hitsFrom pat offset =
      (occurrences pat (seg.chunk pat offset)).map (seg.startAddress + offset + ·) ++
        seg.hitsFrom pat (offset + chunkSize) := by
  have hn : chunkSize ≤ (seg.bytes.drop offset).length := by
    rw [List.length_drop]
    have hle : seg.len = seg.bytes.length := rfl
    omega
  rw [Segment.hitsFrom, occurrences_chunk hn hpos, List.map_append, List.map_map, List.drop_drop,
    Segment.hitsFrom, ← Segment.chunk]
  congr 2
  funext i
  simp only [Function.comp_apply]
  omega

theorem hitsFrom_last (hpos : 0 < pat.length) (h : seg.len - offset ≤ chunkSize) :
    seg.hitsFrom pat offset =
      (occurrences pat (seg.chunk pat offset)).map (seg.startAddress + offset + ·) := by
  have hall : (seg.bytes.drop offset).length ≤ chunkSize + (pat.length - 1) := by
    rw [List.length_drop]
    have hle : seg.len = seg.bytes.length := rfl
    omega
  rw [Segment.chunk, List.take_of_length_le hall, Segment.hitsFrom]

/- Both programs test a window by its fixed bytes. -/
theorem windowMatches_eq {window : List UInt8} (h : pat.length ≤ window.length) :
    windowMatches pat window = matchesHead pat window :=
  zip_all_eq_matchesHead h

/-! ### Both loops are the plain scan -/

theorem take_append_take {α : Type*} (xs ys : List α) (n : ℕ) :
    (xs.take n ++ ys).take n = (xs ++ ys).take n := by
  rw [List.take_append, List.take_append, List.take_take, Nat.min_self, List.length_take]
  congr 2
  omega

theorem findInChunk_eq (bytes : List UInt8) (base : ℕ) (is : List ℕ) (found : List String)
    (hfound : found.length ≤ maxResults) :
    findInChunk pat bytes base maxResults is found =
      (found ++ ((is.filter fun i => windowMatches pat (bytes.drop i)).map
        fun i => hexAddr (base + i))).take maxResults := by
  induction is generalizing found with
  | nil => simpa [findInChunk] using (List.take_of_length_le hfound).symm
  | cons i is ih =>
    rw [findInChunk]
    split
    · rename_i hfull
      have hlen : found.length = maxResults := by omega
      rw [List.take_append_of_le_length (by omega), ← hlen, List.take_length]
    · rename_i hroom
      by_cases hi : windowMatches pat (bytes.drop i) = true
      · have hpush : (found ++ [hexAddr (base + i)]).length ≤ maxResults := by
          rw [List.length_append, List.length_singleton]
          omega
        rw [if_pos hi, ih _ hpush, List.filter_cons, if_pos hi, List.map_cons, List.append_assoc,
          List.singleton_append]
      · rw [if_neg hi, ih _ hfound, List.filter_cons, if_neg hi]

/- The windows of a chunk are all the places where the pattern can match in it. -/
theorem filter_windows (hpos : 0 < pat.length) {bytes : List UInt8}
    (h : pat.length ≤ bytes.length) :
    ((List.range (bytes.length - pat.length + 1)).filter
      fun i => windowMatches pat (bytes.drop i)) = occurrences pat bytes := by
  rw [← filter_range_windows h hpos]
  apply List.filter_congr
  intro i hi
  have hlt : i < bytes.length - pat.length + 1 := List.mem_range.mp hi
  apply windowMatches_eq
  rw [List.length_drop]
  omega

theorem findInSegment_eq (hpos : 0 < pat.length) (hseg : seg ∈ db.segments)
    (hfuel : seg.len - offset ≤ fuel) (found : List String)
    (hfound : found.length ≤ maxResults) :
    findInSegment db pat seg maxResults fuel offset found =
      (found ++ (seg.hitsFrom pat offset).map hexAddr).take maxResults := by
  induction fuel generalizing offset found with
  | zero =>
    have hkeep : found = found.take maxResults := (List.take_of_length_le hfound).symm
    have hend : seg.len < offset + pat.length := by omega
    rw [findInSegment, Segment.hitsFrom_short hend, List.map_nil, List.append_nil]
    exact hkeep
  | succ fuel ih =>
    have hkeep : found = found.take maxResults := (List.take_of_length_le hfound).symm
    rw [findInSegment]
    split
    · rename_i hgo
      simp only [getBytes_chunk hseg hgo.1]
      split
      · rename_i hshort
        rw [hitsFrom_of_chunk_short hpos hshort, List.map_nil, List.append_nil]
        exact hkeep
      · rename_i hlong
        rw [findInChunk_eq _ _ _ _ hfound, filter_windows hpos (by omega)]
        split
        · rename_i hlast
          rw [hitsFrom_last hpos hlast, List.map_map]
          rfl
        · rename_i hmore
          have hstep : seg.len - (offset + chunkSize) ≤ fuel := by
            have hchunk : 0 < chunkSize := by decide
            omega
          have hsplit := @hitsFrom_chunk pat seg offset hpos (by omega)
          rw [ih hstep _ (List.length_take_le _ _), take_append_take, hsplit, List.map_append,
            List.map_map, List.append_assoc]
          rfl
    · rename_i hstop
      by_cases hend : offset < seg.len
      · have hfull : found.length = maxResults := by omega
        rw [List.take_append_of_le_length (by omega), ← hfull, List.take_length]
      · rw [Segment.hitsFrom_short (by omega), List.map_nil, List.append_nil]
        exact hkeep

theorem findInSegments_eq (hpos : 0 < pat.length) (segs : List Segment)
    (hsegs : ∀ seg ∈ segs, seg ∈ db.segments) (found : List String)
    (hfound : found.length ≤ maxResults) :
    findInSegments db pat maxResults segs found =
      (found ++ (segs.flatMap (Segment.hits pat)).map hexAddr).take maxResults := by
  induction segs generalizing found with
  | nil => simpa [findInSegments] using (List.take_of_length_le hfound).symm
  | cons seg segs ih =>
    have hseg : seg ∈ db.segments := hsegs seg List.mem_cons_self
    have hrest : ∀ seg ∈ segs, seg ∈ db.segments :=
      fun s hs => hsegs s (List.mem_cons_of_mem seg hs)
    simp only [findInSegments]
    rw [findInSegment_eq hpos hseg (by omega) found hfound, Segment.hitsFrom_zero,
      List.flatMap_cons, List.map_append, ← List.append_assoc]
    split
    · rename_i hfull
      have hlen : maxResults ≤ (found ++ (seg.hits pat).map hexAddr).length := by
        rw [List.length_take] at hfull
        omega
      rw [List.take_append_of_le_length hlen]
    · rw [ih hrest _ (List.length_take_le _ _), take_append_take]

/-- The count after `h` more hits. The test for `stop_at` follows the increment, so the first
hit is counted even when none is asked for. -/
def tally (stopAt found h : ℕ) : Except ℕ ℕ :=
  if max stopAt 1 ≤ found + h then .error (max stopAt 1) else .ok (found + h)

theorem tally_zero {found : ℕ} (h : found < max stopAt 1) : tally stopAt found 0 = .ok found := by
  rw [tally, Nat.add_zero, if_neg (by omega)]

theorem tally_bind (found h : ℕ) {f : ℕ → Except ℕ ℕ} {h' : ℕ}
    (hf : ∀ n < max stopAt 1, f n = tally stopAt n h') :
    (tally stopAt found h).bind f = tally stopAt found (h + h') := by
  by_cases hstop : max stopAt 1 ≤ found + h
  · rw [tally, if_pos hstop, tally, if_pos (by omega)]
    rfl
  · rw [tally, if_neg hstop]
    show f (found + h) = tally stopAt found (h + h')
    rw [hf _ (by omega), tally, tally, Nat.add_assoc]

theorem countInChunk_eq (ws : List (List UInt8)) {found : ℕ} (hfound : found < max stopAt 1) :
    countInChunk pat stopAt ws found = tally stopAt found (ws.countP (windowMatches pat)) := by
  induction ws generalizing found with
  | nil => exact (tally_zero hfound).symm
  | cons window ws ih =>
    rw [countInChunk, List.countP_cons]
    by_cases hw : windowMatches pat window = true
    · rw [if_pos hw, if_pos hw]
      split
      · rename_i hstop
        have hlast : found + 1 = max stopAt 1 := by omega
        rw [tally, if_pos (by omega), hlast]
      · rename_i hgo
        rw [ih (by omega), tally, tally, Nat.add_right_comm, Nat.add_assoc found]
    · rw [if_neg hw, if_neg hw, ih hfound, Nat.add_zero]

theorem countP_windows (hpos : 0 < pat.length) {bytes : List UInt8}
    (h : pat.length ≤ bytes.length) :
    (windows pat.length bytes).countP (windowMatches pat) = (occurrences pat bytes).length := by
  rw [← filter_windows hpos h, windows, List.countP_map, List.countP_eq_length_filter]
  congr 1
  apply List.filter_congr
  intro i hi
  have hlt : i < bytes.length - pat.length + 1 := List.mem_range.mp hi
  have hlen : pat.length ≤ (bytes.drop i).length := by
    rw [List.length_drop]
    omega
  have htake : pat.length ≤ ((bytes.drop i).take pat.length).length := by
    rw [List.length_take]
    omega
  show windowMatches pat ((bytes.drop i).take pat.length) = windowMatches pat (bytes.drop i)
  rw [windowMatches_eq htake, windowMatches_eq hlen, matchesHead_take (Nat.le_refl _)]

theorem countInSegment_eq (hpos : 0 < pat.length) (hseg : seg ∈ db.segments)
    (hfuel : seg.len - offset ≤ fuel) {found : ℕ} (hfound : found < max stopAt 1) :
    countInSegment db pat seg stopAt fuel offset found =
      tally stopAt found (seg.hitsFrom pat offset).length := by
  induction fuel generalizing offset found with
  | zero =>
    have hend : seg.len < offset + pat.length := by omega
    rw [countInSegment, Segment.hitsFrom_short hend]
    exact (tally_zero hfound).symm
  | succ fuel ih =>
    rw [countInSegment]
    split
    · rename_i hgo
      simp only [getBytes_chunk hseg hgo]
      split
      · rename_i hshort
        rw [hitsFrom_of_chunk_short hpos hshort]
        exact (tally_zero hfound).symm
      · rename_i hlong
        rw [countInChunk_eq _ hfound, countP_windows hpos (by omega)]
        by_cases hlast : seg.len - offset ≤ chunkSize
        · rw [hitsFrom_last hpos hlast, List.length_map, ← Nat.add_zero (occurrences _ _).length]
          apply tally_bind
          intro n hn
          rw [if_pos hlast, tally_zero hn]
        · have hstep : seg.len - (offset + chunkSize) ≤ fuel := by
            have hchunk : 0 < chunkSize := by decide
            omega
          have hsplit := @hitsFrom_chunk pat seg offset hpos (by omega)
          rw [hsplit, List.length_append, List.length_map]
          apply tally_bind
          intro n hn
          rw [if_neg hlast, ih hstep hn]
    · rename_i hend
      rw [Segment.hitsFrom_short (by omega)]
      exact (tally_zero hfound).symm

theorem countInSegments_eq (hpos : 0 < pat.length) (segs : List Segment)
    (hsegs : ∀ seg ∈ segs, seg ∈ db.segments) {found : ℕ} (hfound : found < max stopAt 1) :
    countInSegments db pat stopAt segs found =
      tally stopAt found (segs.flatMap (Segment.hits pat)).length := by
  induction segs generalizing found with
  | nil => exact (tally_zero hfound).symm
  | cons seg segs ih =>
    have hseg : seg ∈ db.segments := hsegs seg List.mem_cons_self
    have hrest : ∀ seg ∈ segs, seg ∈ db.segments :=
      fun s hs => hsegs s (List.mem_cons_of_mem seg hs)
    rw [countInSegments, countInSegment_eq hpos hseg (by omega) hfound, Segment.hitsFrom_zero,
      List.flatMap_cons, List.length_append]
    apply tally_bind
    intro n hn
    exact ih hrest hn

theorem countMatches_eq (hpat : pat ≠ []) :
    countMatches db pat stopAt = min (max stopAt 1) (db.hits pat).length := by
  have hpos : 0 < pat.length := List.length_pos_iff.mpr hpat
  have hcount : countInSegments db pat stopAt db.segments 0 =
      tally stopAt 0 (db.hits pat).length :=
    countInSegments_eq hpos db.segments (fun _ h => h) (by omega)
  rw [countMatches, if_neg (by omega), hcount, tally, Nat.zero_add]
  by_cases hstop : max stopAt 1 ≤ (db.hits pat).length
  · rw [if_pos hstop, Nat.min_eq_left hstop]
  · rw [if_neg hstop, Nat.min_eq_right (by omega)]

theorem handleFindBytes_eq {text : List Char} (hparse : parsePattern text = .ok pat)
    (hpat : pat ≠ []) :
    handleFindBytes (some db) text maxResults = .ok
      { pattern := text
        matched := ((db.hits pat).take maxResults).map hexAddr
        count := min maxResults (db.hits pat).length } := by
  have hpos : 0 < pat.length := List.length_pos_iff.mpr hpat
  have hscan : findInSegments db pat maxResults db.segments [] =
      ((db.hits pat).take maxResults).map hexAddr := by
    rw [findInSegments_eq hpos db.segments (fun _ h => h) [] (Nat.zero_le _), List.nil_append,
      List.map_take]
    rfl
  have hrun : handleFindBytes (some db) text maxResults = .ok
      { pattern := text
        matched := findInSegments db pat maxResults db.segments []
        count := (findInSegments db pat maxResults db.segments []).length } := by
    simp [handleFindBytes, hparse, hpat, bind, Except.bind]
  rw [hrun, hscan, List.length_map, List.length_take]

/-- The search in chunks finds the hits of the whole database in order, up to its limit, and the
count is theirs, up to its bound. -/
theorem chunked_search_is_plain (db : Idb) (pat : List (Option UInt8)) (hpat : pat ≠ []) :
    (∀ text maxResults, parsePattern text = .ok pat →
      handleFindBytes (some db) text maxResults = .ok
        { pattern := text
          matched := ((db.hits pat).take maxResults).map hexAddr
          count := min maxResults (db.hits pat).length }) ∧
    ∀ stopAt, countMatches db pat stopAt = min (max stopAt 1) (db.hits pat).length := by
  constructor
  · intro text maxResults hparse
    exact handleFindBytes_eq hparse hpat
  · intro stopAt
    exact countMatches_eq hpat

/- Three places match, two of them in the first segment. -/
def prologues : Idb :=
  .ofSegments [⟨0x1000, [0x55, 0x8B, 0xEC, 0x55, 0x90, 0xEC, 0x55, 0xEC], true, by decide⟩,
    ⟨0x2000, [0x55, 0x89, 0xEC], true, by decide⟩] (by decide) (fun _ => some 1) fun _ _ => none

theorem chunked_search_wildcard :
    handleFindBytes (some prologues) "55 ?? ec".toList 5 = .ok
      { pattern := "55 ?? ec".toList
        matched := [0x1000, 0x1003, 0x2000].map hexAddr
        count := 3 } ∧
    countMatches prologues [some 0x55, none, some 0xEC] 2 = 2 := by
  have hhits : prologues.hits [some 0x55, none, some 0xEC] = [0x1000, 0x1003, 0x2000] := by
    decide +kernel
  obtain ⟨hfind, hcount⟩ :=
    chunked_search_is_plain prologues [some 0x55, none, some 0xEC] (by decide)
  rw [hhits] at hfind hcount
  exact ⟨hfind "55 ?? ec".toList 5 (by decide), hcount 2⟩

/-- A single byte that is there is counted although no count is asked for. -/
def nopByte : Idb :=
  .ofSegments [⟨0x1000, [0x90], true, by decide⟩] (by decide) (fun _ => some 1) fun _ _ => none

theorem count_none_asked :
    countMatches nopByte [some 0x90] 0 = 1 ∧ min 0 (nopByte.hits [some 0x90]).length = 0 := by
  decide

end IdaHeadless.Signature
