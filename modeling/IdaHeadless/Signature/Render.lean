import IdaHeadless.Signature.Search
import IdaHeadless.Traversal

/-!
# Signatures and their renderings (ida/signature.rs)

A signature is a list of bytes of which some are wildcards. It is printed in four formats.
The IDA and the x64dbg format are read back by `parse_pattern`; for the two formats that no
code of the repository reads, a mask after escaped bytes and a bit mask after a C array, the
decoders here say what they mean.
-/

namespace IdaHeadless.Signature

open PatternScan Text Radix Traversal

/-! ### The pattern -/

structure SignatureByte where
  value : UInt8
  wildcard : Bool
  deriving DecidableEq

abbrev Sig := List SignatureByte

variable {sig : Sig} {b : SignatureByte}

def SignatureByte.scan (b : SignatureByte) : Option UInt8 :=
  if b.wildcard then none else some b.value

def toScanPattern (sig : Sig) : List (Option UInt8) := sig.map SignatureByte.scan

def trimTrailingWildcards (sig : Sig) : Sig := sig.rdropWhile SignatureByte.wildcard

/-! ### Renderings -/

inductive SignatureFormat where
  | ida
  | x64dbg
  | mask
  | bitmask
  deriving DecidableEq

def renderByte (wildcard : List Char) (b : SignatureByte) : List Char :=
  if b.wildcard then wildcard else upperByte b.value

def renderSpaced (wildcard : List Char) (sig : Sig) : List Char :=
  [' '].intercalate (sig.map (renderByte wildcard))

def renderMask (sig : Sig) : List Char :=
  (sig.flatMap fun b => ['\\', 'x'] ++ renderByte ['0', '0'] b) ++
    ' ' :: sig.map fun b => if b.wildcard then '?' else 'x'

def renderBitmask (sig : Sig) : List Char :=
  [',', ' '].intercalate (sig.map fun b => ['0', 'x'] ++ renderByte ['0', '0'] b) ++
    [' ', '0', 'b'] ++ (sig.map fun b => if b.wildcard then '0' else '1').reverse

def render (sig : Sig) : SignatureFormat → List Char
  | .ida => renderSpaced ['?'] sig
  | .x64dbg => renderSpaced ['?', '?'] sig
  | .mask => renderMask sig
  | .bitmask => renderBitmask sig

/-! ### What the mask formats denote -/

def hexPair (hi lo : Char) : Option UInt8 := (digitsValue 16 0 [hi, lo]).map UInt8.ofNat

/-- Each byte with the character of the mask that stands for it. -/
def applyMask (fixed wild : Char) : List UInt8 → List Char → Option (List (Option UInt8))
  | [], [] => some []
  | b :: bytes, m :: mask =>
    if m = fixed then (applyMask fixed wild bytes mask).map (some b :: ·)
    else if m = wild then (applyMask fixed wild bytes mask).map (none :: ·)
    else none
  | _, _ => none

/- `\xE8\x00 x?`: the bytes, and what follows the blank. -/
def escapedBytes : List Char → Option (List UInt8 × List Char)
  | '\\' :: 'x' :: hi :: lo :: cs =>
    (hexPair hi lo).bind fun b => (escapedBytes cs).map fun (bytes, mask) => (b :: bytes, mask)
  | ' ' :: mask => some ([], mask)
  | _ => none

def decodeMask (cs : List Char) : Option (List (Option UInt8)) :=
  (escapedBytes cs).bind fun (bytes, mask) => applyMask 'x' '?' bytes mask

/- `0xE8, 0x00 0b01`: the bytes, and the digits of the bit mask. -/
def arrayBytes : List Char → Option (List UInt8 × List Char)
  | '0' :: 'x' :: hi :: lo :: ',' :: ' ' :: cs =>
    (hexPair hi lo).bind fun b => (arrayBytes cs).map fun (bytes, mask) => (b :: bytes, mask)
  | '0' :: 'x' :: hi :: lo :: ' ' :: '0' :: 'b' :: mask => (hexPair hi lo).map fun b => ([b], mask)
  | _ => none

/-- Bit 0, the last digit, stands for the first byte. -/
def decodeBitmask (cs : List Char) : Option (List (Option UInt8)) :=
  (arrayBytes cs).bind fun (bytes, mask) => applyMask '1' '0' bytes mask.reverse

/-- The pattern a rendering denotes. -/
def readBack (cs : List Char) : SignatureFormat → Option (List (Option UInt8))
  | .ida | .x64dbg => (parsePattern cs).toOption
  | .mask => decodeMask cs
  | .bitmask => decodeBitmask cs

/-! ### Printed bytes -/

theorem upperDigit_plain {d : ℕ} (h : d < 16) :
    isWhitespace (upperDigit d) = false ∧ upperDigit d ≠ '?' ∧ upperDigit d ≠ 'x' ∧
      upperDigit d ≠ ' ' := by
  have hall : ∀ d < 16, isWhitespace (upperDigit d) = false ∧ upperDigit d ≠ '?' ∧
      upperDigit d ≠ 'x' ∧ upperDigit d ≠ ' ' := by decide
  exact hall d h

theorem trimHexMarks_of_ne {c e : Char} {cs : List Char} (h : e ≠ 'x') :
    trimHexMarks (c :: e :: cs) = c :: e :: cs := by
  unfold trimHexMarks
  split
  · rename_i rest he
    cases he
    exact absurd rfl h
  · rfl

theorem parseToken_upperByte (b : UInt8) : parseToken (upperByte b) = .ok (some b) := by
  have hquest : upperDigit (b.toNat / 16) ≠ '?' := (upperDigit_plain (high_lt b)).2.1
  have hmark : upperDigit (b.toNat % 16) ≠ 'x' := (upperDigit_plain (low_lt b)).2.2.1
  have htrim : trimHexMarks (upperByte b) = upperByte b := trimHexMarks_of_ne hmark
  have hparse : parseUnsigned 16 256 (upperByte b) = some b.toNat :=
    parseUnsigned_digits (by simp [upperByte]) (digitsValue_upperByte b) b.toNat_lt
  have hnot : ¬ (upperByte b = ['?'] ∨ upperByte b = ['?', '?']) := by
    rintro (h | h) <;> simp [upperByte, hquest] at h
  rw [parseToken, if_neg hnot, htrim, hparse]
  simp

theorem hexPair_upper (b : UInt8) :
    hexPair (upperDigit (b.toNat / 16)) (upperDigit (b.toNat % 16)) = some b := by
  have hvalue : digitsValue 16 0 [upperDigit (b.toNat / 16), upperDigit (b.toNat % 16)] =
      some b.toNat := digitsValue_upperByte b
  rw [hexPair, hvalue]
  simp

/-! ### The spaced formats -/

variable {w : List Char}

theorem parseToken_renderByte (hw : w = ['?'] ∨ w = ['?', '?']) (b : SignatureByte) :
    parseToken (renderByte w b) = .ok b.scan := by
  rw [renderByte, SignatureByte.scan]
  split
  · rw [parseToken, if_pos hw]
  · exact parseToken_upperByte b.value

theorem renderByte_ne_nil (hw : w = ['?'] ∨ w = ['?', '?']) (b : SignatureByte) :
    renderByte w b ≠ [] := by
  rw [renderByte]
  split
  · rcases hw with rfl | rfl <;> simp
  · simp [upperByte]

theorem renderByte_plain (hw : w = ['?'] ∨ w = ['?', '?']) (b : SignatureByte) :
    ∀ c ∈ renderByte w b, isWhitespace c = false := by
  intro c hc
  rw [renderByte] at hc
  split at hc
  · have hquest : c = '?' := by
      rcases hw with rfl | rfl <;> simpa using hc
    rw [hquest]
    decide
  · simp only [upperByte, List.mem_cons, List.not_mem_nil, or_false] at hc
    rcases hc with rfl | rfl
    · exact (upperDigit_plain (high_lt b.value)).1
    · exact (upperDigit_plain (low_lt b.value)).1

/- Two bytes or more are told apart by blanks. -/
theorem parsePattern_spaced (hw : w = ['?'] ∨ w = ['?', '?']) (hlen : 2 ≤ sig.length) :
    parsePattern (renderSpaced w sig) = .ok (toScanPattern sig) := by
  have hne : ∀ t ∈ sig.map (renderByte w), t ≠ [] := by
    intro t ht
    obtain ⟨b, -, rfl⟩ := List.mem_map.mp ht
    exact renderByte_ne_nil hw b
  have hplain : ∀ t ∈ sig.map (renderByte w), ∀ c ∈ t, isWhitespace c = false := by
    intro t ht
    obtain ⟨b, -, rfl⟩ := List.mem_map.mp ht
    exact renderByte_plain hw b
  have htrim : trim (renderSpaced w sig) = renderSpaced w sig := trim_join hne hplain
  have hblank : ' ' ∈ renderSpaced w sig := by
    obtain ⟨b, c, rest, rfl⟩ : ∃ b c rest, sig = b :: c :: rest := by
      match sig, hlen with
      | b :: c :: rest, _ => exact ⟨b, c, rest, rfl⟩
    simp [renderSpaced]
  have hnonempty : renderSpaced w sig ≠ [] := List.ne_nil_of_mem hblank
  have hcontains : (renderSpaced w sig).contains ' ' = true := by simpa using hblank
  simp only [parsePattern, htrim]
  rw [if_neg hnonempty, if_pos hcontains, renderSpaced, words_join _ hne hplain, List.mapM_map]
  exact mapM_eq_pure fun b _ => parseToken_renderByte hw b

/- A single byte is two glued digits. -/
theorem chunkTokens_upperByte (b : UInt8) :
    (utf8 (upperByte b)).length = 2 ∧ chunkTokens (utf8 (upperByte b)) = [upperByte b] := by
  have hall : ∀ d < 16, ∀ e < 16,
      (utf8 [upperDigit d, upperDigit e]).length = 2 ∧
        chunkTokens (utf8 [upperDigit d, upperDigit e]) = [[upperDigit d, upperDigit e]] := by
    decide
  exact hall _ (high_lt b) _ (low_lt b)

theorem parsePattern_upperByte (b : UInt8) : parsePattern (upperByte b) = .ok [some b] := by
  have hplain : ∀ c ∈ upperByte b, isWhitespace c = false ∧ c ≠ ' ' := by
    intro c hc
    simp only [upperByte, List.mem_cons, List.not_mem_nil, or_false] at hc
    rcases hc with rfl | rfl
    · exact ⟨(upperDigit_plain (high_lt b)).1, (upperDigit_plain (high_lt b)).2.2.2⟩
    · exact ⟨(upperDigit_plain (low_lt b)).1, (upperDigit_plain (low_lt b)).2.2.2⟩
  have htrim : trim (upperByte b) = upperByte b := trim_eq_self fun c hc => (hplain c hc).1
  have hcontains : (upperByte b).contains ' ' = false := by
    rw [← Bool.not_eq_true, List.contains_iff_mem]
    intro hmem
    exact (hplain ' ' hmem).2 rfl
  obtain ⟨hlen, htokens⟩ := chunkTokens_upperByte b
  simp only [parsePattern, htrim, hcontains, hlen, htokens]
  rw [if_neg (by simp [upperByte]), if_neg (by simp), if_neg (by simp), List.mapM_cons,
    parseToken_upperByte]
  rfl

theorem parsePattern_renderSpaced (hw : w = ['?'] ∨ w = ['?', '?'])
    (h : trimTrailingWildcards sig ≠ []) :
    parsePattern (renderSpaced w sig) = .ok (toScanPattern sig) := by
  match sig, h with
  | [], h => exact absurd rfl h
  | [b], h =>
    have hfixed : b.wildcard = false := by
      by_contra hb
      simp [trimTrailingWildcards, List.rdropWhile, hb] at h
    have hparse := parsePattern_upperByte b.value
    simpa [renderSpaced, renderByte, toScanPattern, SignatureByte.scan, hfixed] using hparse
  | b :: c :: rest, _ => exact parsePattern_spaced hw (by simp)

/-! ### The mask formats -/

/-- The value that a mask format prints. -/
def SignatureByte.printed (b : SignatureByte) : UInt8 := if b.wildcard then 0 else b.value

theorem renderByte_zero (b : SignatureByte) :
    renderByte ['0', '0'] b =
      [upperDigit (b.printed.toNat / 16), upperDigit (b.printed.toNat % 16)] := by
  rw [renderByte, SignatureByte.printed]
  split
  · decide
  · rfl

theorem applyMask_printed {fixed wild : Char} (hne : wild ≠ fixed) (sig : Sig) :
    applyMask fixed wild (sig.map SignatureByte.printed)
      (sig.map fun b => if b.wildcard then wild else fixed) = some (toScanPattern sig) := by
  induction sig with
  | nil => rfl
  | cons b sig ih =>
    cases hb : b.wildcard with
    | false => simp [applyMask, hb, ih, toScanPattern, SignatureByte.scan, SignatureByte.printed]
    | true => simp [applyMask, hb, hne, ih, toScanPattern, SignatureByte.scan]

theorem escapedBytes_render (sig : Sig) (mask : List Char) :
    escapedBytes ((sig.flatMap fun b => ['\\', 'x'] ++ renderByte ['0', '0'] b) ++ ' ' :: mask) =
      some (sig.map SignatureByte.printed, mask) := by
  induction sig with
  | nil => rfl
  | cons b sig ih =>
    simp only [List.flatMap_cons, renderByte_zero, List.cons_append, List.nil_append,
      escapedBytes, hexPair_upper, Option.bind_some, List.map_cons]
    simp only [renderByte_zero, List.cons_append, List.nil_append] at ih
    rw [ih]
    rfl

theorem decodeMask_render (sig : Sig) : decodeMask (renderMask sig) = some (toScanPattern sig) := by
  rw [decodeMask, renderMask, escapedBytes_render]
  exact applyMask_printed (by decide) sig

theorem arrayBytes_render (hne : sig ≠ []) (mask : List Char) :
    arrayBytes ([',', ' '].intercalate (sig.map fun b => ['0', 'x'] ++ renderByte ['0', '0'] b) ++
      [' ', '0', 'b'] ++ mask) = some (sig.map SignatureByte.printed, mask) := by
  induction sig with
  | nil => exact absurd rfl hne
  | cons b sig ih =>
    cases sig with
    | nil =>
      simp only [List.map_cons, List.map_nil, List.intercalate_singleton, renderByte_zero,
        List.cons_append, List.nil_append, arrayBytes, hexPair_upper, Option.map_some]
    | cons c sig =>
      have hrest := ih (by simp)
      simp only [List.map_cons, List.intercalate_cons_cons, renderByte_zero, List.cons_append,
        List.nil_append, List.append_assoc, arrayBytes, hexPair_upper, Option.bind_some] at hrest ⊢
      rw [hrest]
      rfl

theorem decodeBitmask_render (hne : sig ≠ []) :
    decodeBitmask (renderBitmask sig) = some (toScanPattern sig) := by
  rw [decodeBitmask, renderBitmask, arrayBytes_render hne]
  simp only [Option.bind_some, List.reverse_reverse]
  exact applyMask_printed (by decide) sig

/-! ### Every format -/

theorem ne_nil_of_trim (h : trimTrailingWildcards sig ≠ []) : sig ≠ [] := by
  rintro rfl
  exact h rfl

theorem parsePattern_render (h : trimTrailingWildcards sig ≠ []) {format : SignatureFormat}
    (hformat : format = .ida ∨ format = .x64dbg) :
    parsePattern (render sig format) = .ok (toScanPattern sig) := by
  rcases hformat with rfl | rfl
  · exact parsePattern_renderSpaced (Or.inl rfl) h
  · exact parsePattern_renderSpaced (Or.inr rfl) h

theorem readBack_render (h : trimTrailingWildcards sig ≠ []) (format : SignatureFormat) :
    readBack (render sig format) format = some (toScanPattern sig) := by
  cases format with
  | ida => simp [readBack, parsePattern_render h (Or.inl rfl), Except.toOption]
  | x64dbg => simp [readBack, parsePattern_render h (Or.inr rfl), Except.toOption]
  | mask => exact decodeMask_render sig
  | bitmask => exact decodeBitmask_render (ne_nil_of_trim h)

/-- Each format reads back as the pattern it was written from, and a search takes the first two as
they are. -/
theorem rendering_round_trip (sig : Sig) (h : trimTrailingWildcards sig ≠ []) :
    parsePattern (render sig .ida) = .ok (toScanPattern sig) ∧
    parsePattern (render sig .x64dbg) = .ok (toScanPattern sig) ∧
    decodeMask (render sig .mask) = some (toScanPattern sig) ∧
    decodeBitmask (render sig .bitmask) = some (toScanPattern sig) ∧
    ∀ (db : Idb) (maxResults : ℕ) (format : SignatureFormat), format = .ida ∨ format = .x64dbg →
      handleFindBytes (some db) (render sig format) maxResults = .ok
        { pattern := render sig format
          matched := ((db.hits (toScanPattern sig)).take maxResults).map hexAddr
          count := min maxResults (db.hits (toScanPattern sig)).length } := by
  refine ⟨parsePattern_render h (Or.inl rfl), parsePattern_render h (Or.inr rfl),
    decodeMask_render sig, decodeBitmask_render (ne_nil_of_trim h), ?_⟩
  intro db maxResults format hformat
  have hne : toScanPattern sig ≠ [] := by simpa [toScanPattern] using ne_nil_of_trim h
  exact handleFindBytes_eq (parsePattern_render h hformat) hne

/-- A wildcard first and last. -/
def callOperand : Sig := [⟨0x11, true⟩, ⟨0xE8, false⟩, ⟨0x22, true⟩]

theorem rendering_callOperand :
    trimTrailingWildcards callOperand ≠ [] ∧
      render callOperand .bitmask = "0x00, 0xE8, 0x00 0b010".toList ∧
      decodeBitmask (render callOperand .bitmask) = some [none, some 0xE8, none] :=
  ⟨by decide, by decide, (rendering_round_trip callOperand (by decide)).2.2.2.1⟩

end IdaHeadless.Signature
