import IdaHeadless.Address
import IdaHeadless.Traversal

/-!
# Byte payloads (server/bytes.rs)

The bytes of a `patch` come as a JSON string of hexadecimal digits, as an array of numbers and
texts, or as one number. In a string every character that is no digit is dropped if it is a
separator, and the digits that remain are paired. The letter of a `0x` is such a separator,
the zero before it is a digit.
-/

namespace IdaHeadless.Payload

open Text Radix Address Traversal

/-! ### JSON values -/

/- `serde_json::Number`: an unsigned number, a negative one, or a float, of which only the
text is of interest here. -/
inductive Number where
  | posInt (n : ℕ)
  | negInt (i : Int)
  | float (text : String)

def Number.asU64 : Number → Option ℕ
  | .posInt n => some n
  | _ => none

/-- The fields of an object are never looked at. -/
inductive Value where
  | null
  | bool (b : Bool)
  | number (n : Number)
  | string (s : List Char)
  | array (arr : List Value)
  | object

/-! ### `value_to_bytes` -/

/- `char::is_ascii_hexdigit`. -/
def isHexDigit (c : Char) : Bool := (digitValue 16 c).isSome

/-- The characters that are dropped. -/
def isSeparator (c : Char) : Bool :=
  [' ', '\t', '\n', '\x0c', '\r', ',', '_', ':', '-', 'x', 'X'].contains c

def cleanHex : List Char → Except ToolError (List Char)
  | [] => .ok []
  | c :: cs =>
    if isHexDigit c then (cleanHex cs).map (c :: ·)
    else if isSeparator c then cleanHex cs
    else .error (.invalidParams ("invalid hex character: " ++ String.ofList [c]))

def decodePairs : List Char → Except ToolError (List UInt8)
  | hi :: lo :: cs =>
    match parseUnsigned 16 256 [hi, lo] with
    | some b => (decodePairs cs).map (UInt8.ofNat b :: ·)
    | none => .error (.invalidParams "invalid hex byte")
  | _ => .ok []

def stringBytes (s : List Char) : Except ToolError (List UInt8) :=
  (cleanHex s).bind fun cleaned =>
    if cleaned = [] then .error (.invalidParams "no bytes provided")
    else if cleaned.length % 2 ≠ 0 then .error (.invalidParams "hex string has odd length")
    else decodePairs cleaned

def byteOf (n : ℕ) : Except ToolError UInt8 :=
  if 255 < n then .error (.invalidParams "byte value out of range") else .ok (UInt8.ofNat n)

def numberByte (n : Number) : Except ToolError UInt8 :=
  match n.asU64 with
  | none => .error (.invalidParams "invalid byte")
  | some n => byteOf n

def elementByte : Value → Except ToolError UInt8
  | .number n => numberByte n
  | .string s => (parseAddress s).bind byteOf
  | _ => .error (.invalidParams "bytes must be numbers or strings")

def valueToBytes : Value → Except ToolError (List UInt8)
  | .string s => stringBytes s
  | .array arr => (arr.mapM elementByte).bind fun out =>
    if out = [] then .error (.invalidParams "no bytes provided") else .ok out
  | .number n => (numberByte n).map fun b => [b]
  | _ => .error (.invalidParams "expected hex string or array of bytes")

/-! ### Spellings -/

/-- A text of two-digit pairs with separators between them. A pair may be prefixed with `0x`;
`p` of them are. -/
inductive Spells : ℕ → List Char → List UInt8 → Prop
  | done : Spells 0 [] []
  | separator {p c s bs} : isHexDigit c = false → isSeparator c = true → Spells p s bs →
    Spells p (c :: s) bs
  | pair {p hi lo s b bs} : digitsValue 16 0 [hi, lo] = some (UInt8.toNat b) → Spells p s bs →
    Spells p (hi :: lo :: s) (b :: bs)
  | marked {p x hi lo s b bs} : x = 'x' ∨ x = 'X' →
    digitsValue 16 0 [hi, lo] = some (UInt8.toNat b) → Spells p s bs →
    Spells (p + 1) ('0' :: x :: hi :: lo :: s) (b :: bs)

/-- An element of an array: the number, or its digits behind `0x`. -/
inductive ElementSpells : Value → UInt8 → Prop
  | number (b : UInt8) : ElementSpells (.number (.posInt b.toNat)) b
  | hex {x ds b} : x = 'x' ∨ x = 'X' → ds ≠ [] → digitsValue 16 0 ds = some (UInt8.toNat b) →
    ElementSpells (.string ('0' :: x :: ds)) b

inductive Written : Value → List UInt8 → Prop
  | string {p s bs} : Spells p s bs → Written (.string s) bs
  | array {arr bs} : List.Forall₂ ElementSpells arr bs → Written (.array arr) bs
  | number (b : UInt8) : Written (.number (.posInt b.toNat)) [b]

/-- A text of at least one byte, in whole pairs. -/
def Paired (s : List Char) : Prop := ∃ p bs, bs ≠ [] ∧ Spells p s bs

/- Every spelling decodes to the bytes written, and a text that is none is refused. -/
structure DecodesAsWritten (v : Value) : Prop where
  written : ∀ bs, bs ≠ [] → Written v bs → valueToBytes v = .ok bs
  refused : ∀ s, v = .string s → ¬ Paired s → ∃ e, valueToBytes v = .error e

/-- Digits and separators only. -/
def Legal (s : List Char) : Prop := ∀ c ∈ s, isHexDigit c = true ∨ isSeparator c = true

/-- Some separator stands behind an odd number of digits, so between the two of a pair. -/
def Cut (s : List Char) : Prop :=
  ∃ pre c post, s = pre ++ c :: post ∧ isHexDigit c = false ∧ pre.countP isHexDigit % 2 = 1

/-! ### Cleaned texts -/

variable {s : List Char} {bs : List UInt8} {p : ℕ}

theorem isHexDigit_of_pair {hi lo : Char} {n : ℕ} (h : digitsValue 16 0 [hi, lo] = some n) :
    isHexDigit hi = true ∧ isHexDigit lo = true :=
  ⟨digit_of_mem h (by simp), digit_of_mem h (by simp)⟩

theorem cleanHex_ok (h : Legal s) : cleanHex s = .ok (s.filter isHexDigit) := by
  induction s with
  | nil => rfl
  | cons c s ih =>
    have htail := ih fun d hd => h d (List.mem_cons_of_mem c hd)
    by_cases hc : isHexDigit c = true
    · rw [cleanHex, if_pos hc, htail, List.filter_cons_of_pos hc]
      rfl
    · have hsep : isSeparator c = true := (h c List.mem_cons_self).resolve_left hc
      rw [cleanHex, if_neg hc, if_pos hsep, htail, List.filter_cons_of_neg hc]

theorem cleanHex_error {c : Char} (hc : c ∈ s) (hdigit : isHexDigit c = false)
    (hsep : isSeparator c = false) : ∃ e, cleanHex s = .error e := by
  induction s with
  | nil => cases hc
  | cons d s ih =>
    by_cases hcd : c = d
    · subst hcd
      rw [cleanHex, if_neg (by simp [hdigit]), if_neg (by simp [hsep])]
      exact ⟨_, rfl⟩
    · obtain ⟨e, he⟩ := ih ((List.mem_cons.mp hc).resolve_left hcd)
      rw [cleanHex, he]
      split
      · exact ⟨e, rfl⟩
      · split
        · exact ⟨e, rfl⟩
        · exact ⟨_, rfl⟩

theorem parseUnsigned_pair {hi lo : Char} {b : UInt8}
    (h : digitsValue 16 0 [hi, lo] = some b.toNat) : parseUnsigned 16 256 [hi, lo] = some b.toNat :=
  parseUnsigned_digits (by simp) h b.toNat_lt

theorem length_decodePairs {ds : List Char} {out : List UInt8} (h : decodePairs ds = .ok out) :
    out.length = ds.length / 2 := by
  induction ds using decodePairs.induct generalizing out with
  | case1 hi lo cs b hb ih =>
    rw [decodePairs, hb] at h
    cases hrest : decodePairs cs with
    | error e => simp [hrest, Except.map] at h
    | ok rest =>
      simp only [hrest, Except.map, Except.ok.injEq] at h
      have hlen := ih hrest
      rw [← h, List.length_cons, List.length_cons, List.length_cons, hlen]
      omega
  | case2 hi lo cs hnone =>
    rw [decodePairs, hnone] at h
    cases h
  | case3 ds hshort =>
    have hlt : ds.length < 2 := by
      match ds, hshort with
      | [], _ => simp
      | [c], _ => simp
      | hi :: lo :: cs, hshort => exact absurd rfl (hshort hi lo cs)
    rw [decodePairs.eq_2 _ hshort] at h
    rw [← Except.ok.inj h, List.length_nil]
    omega

/-! ### Spelled texts -/

theorem Spells.legal (h : Spells p s bs) : Legal s := by
  induction h with
  | done => exact nofun
  | separator hdigit hsep _ ih =>
    intro d hd
    rcases List.mem_cons.mp hd with rfl | hd
    · exact Or.inr hsep
    · exact ih d hd
  | pair hpair _ ih =>
    have hdigits := isHexDigit_of_pair hpair
    intro d hd
    simp only [List.mem_cons] at hd
    rcases hd with rfl | rfl | hd
    · exact Or.inl hdigits.1
    · exact Or.inl hdigits.2
    · exact ih d hd
  | marked hx hpair _ ih =>
    have hdigits := isHexDigit_of_pair hpair
    intro d hd
    simp only [List.mem_cons] at hd
    rcases hd with rfl | rfl | rfl | rfl | hd
    · exact Or.inl (by decide)
    · rcases hx with rfl | rfl <;> exact Or.inr (by decide)
    · exact Or.inl hdigits.1
    · exact Or.inl hdigits.2
    · exact ih d hd

theorem not_isHexDigit_mark {x : Char} (hx : x = 'x' ∨ x = 'X') : ¬ isHexDigit x = true := by
  rcases hx with rfl | rfl <;> decide

/- The zero of every prefix is among the digits. -/
theorem Spells.length_digits (h : Spells p s bs) :
    (s.filter isHexDigit).length = 2 * bs.length + p := by
  induction h with
  | done => rfl
  | separator hdigit _ _ ih => rw [List.filter_cons_of_neg (by simp [hdigit]), ih]
  | pair hpair _ ih =>
    have hdigits := isHexDigit_of_pair hpair
    rw [List.filter_cons_of_pos hdigits.1, List.filter_cons_of_pos hdigits.2, List.length_cons,
      List.length_cons, ih, List.length_cons]
    omega
  | marked hx hpair _ ih =>
    have hdigits := isHexDigit_of_pair hpair
    have hzero : isHexDigit '0' = true := by decide
    rw [List.filter_cons_of_pos hzero, List.filter_cons_of_neg (not_isHexDigit_mark hx),
      List.filter_cons_of_pos hdigits.1, List.filter_cons_of_pos hdigits.2, List.length_cons,
      List.length_cons, List.length_cons, ih, List.length_cons]
    omega

theorem Spells.marks_le (h : Spells p s bs) : p ≤ bs.length := by
  induction h with
  | done => exact Nat.le_refl 0
  | separator _ _ _ ih => exact ih
  | pair _ _ ih =>
    rw [List.length_cons]
    omega
  | marked _ _ _ ih =>
    rw [List.length_cons]
    omega

theorem Spells.decodePairs_digits (h : Spells 0 s bs) :
    decodePairs (s.filter isHexDigit) = .ok bs := by
  generalize hp : (0 : ℕ) = p at h
  induction h with
  | done => rfl
  | separator hdigit _ _ ih => rw [List.filter_cons_of_neg (by simp [hdigit]), ih hp]
  | pair hpair _ ih =>
    have hdigits := isHexDigit_of_pair hpair
    rw [List.filter_cons_of_pos hdigits.1, List.filter_cons_of_pos hdigits.2, decodePairs,
      parseUnsigned_pair hpair]
    simp [ih hp, Except.map]
  | marked _ _ _ _ => cases hp

/-! ### Pairs that are whole -/

/- Without a prefix no pair is cut. -/
theorem Spells.not_cut (h : Spells 0 s bs) : ¬ Cut s := by
  generalize hp : (0 : ℕ) = p at h
  induction h with
  | done =>
    rintro ⟨pre, c, post, hs, -, -⟩
    exact absurd hs.symm (List.append_ne_nil_of_right_ne_nil _ (List.cons_ne_nil _ _))
  | separator hdigit _ _ ih =>
    rintro ⟨pre, c, post, hs, hc, hodd⟩
    cases pre with
    | nil => cases hodd
    | cons d pre =>
      obtain ⟨rfl, hrest⟩ := List.cons.inj hs
      rw [List.countP_cons_of_neg (by simp [hdigit])] at hodd
      exact ih hp ⟨pre, c, post, hrest, hc, hodd⟩
  | pair hpair _ ih =>
    obtain ⟨hhi, hlo⟩ := isHexDigit_of_pair hpair
    rintro ⟨pre, c, post, hs, hc, hodd⟩
    -- The separator stands behind both digits.
    cases pre with
    | nil => cases hodd
    | cons d pre =>
      obtain ⟨rfl, hrest⟩ := List.cons.inj hs
      cases pre with
      | nil =>
        obtain ⟨rfl, -⟩ := List.cons.inj hrest
        rw [hc] at hlo
        cases hlo
      | cons e pre =>
        obtain ⟨rfl, hrest'⟩ := List.cons.inj hrest
        rw [List.countP_cons_of_pos hhi, List.countP_cons_of_pos hlo] at hodd
        exact ih hp ⟨pre, c, post, hrest', hc, by omega⟩
  | marked => cases hp

theorem digitsValue_of_digits {hi lo : Char} (hhi : isHexDigit hi = true)
    (hlo : isHexDigit lo = true) : ∃ b : UInt8, digitsValue 16 0 [hi, lo] = some b.toNat := by
  obtain ⟨m, hm⟩ := Option.isSome_iff_exists.mp hhi
  obtain ⟨n, hn⟩ := Option.isSome_iff_exists.mp hlo
  have hlt : 16 * m + n < 256 := by
    have hm' : m < 16 := by simpa using (Option.filter_eq_some_iff.mp hm).2
    have hn' : n < 16 := by simpa using (Option.filter_eq_some_iff.mp hn).2
    omega
  exact ⟨UInt8.ofNat (16 * m + n), by
    rw [digitsValue_pair hm hn, UInt8.toNat_ofNat_of_lt' hlt]⟩

/- A text without a cut pair, with an even number of digits, is read in pairs. The induction is
on its length: a pair takes two characters at once. -/
theorem spells_of_whole (hlegal : Legal s) (heven : s.countP isHexDigit % 2 = 0)
    (hwhole : ¬ Cut s) : ∃ bs, Spells 0 s bs := by
  induction hn : s.length using Nat.strong_induction_on generalizing s with
  | _ n ih =>
    subst hn
    cases s with
    | nil => exact ⟨[], .done⟩
    | cons hi s =>
      by_cases hhi : isHexDigit hi = true
      · cases s with
        | nil =>
          rw [List.countP_cons_of_pos hhi] at heven
          cases heven
        | cons lo s =>
          have hlo : isHexDigit lo = true := by
            by_contra hlo
            refine hwhole ⟨[hi], lo, s, rfl, Bool.eq_false_iff.mpr hlo, ?_⟩
            rw [List.countP_cons_of_pos hhi]
            rfl
          rw [List.countP_cons_of_pos hhi, List.countP_cons_of_pos hlo] at heven
          obtain ⟨b, hb⟩ := digitsValue_of_digits hhi hlo
          obtain ⟨bs, hbs⟩ := ih s.length (by simp only [List.length_cons]; omega)
            (fun c hc => hlegal c (by simp [hc])) (by omega)
            (by
              rintro ⟨pre, c, post, rfl, hc, hodd⟩
              refine hwhole ⟨hi :: lo :: pre, c, post, rfl, hc, ?_⟩
              rw [List.countP_cons_of_pos hhi, List.countP_cons_of_pos hlo]
              omega)
            rfl
          exact ⟨b :: bs, .pair hb hbs⟩
      · have hdigit : isHexDigit hi = false := Bool.eq_false_iff.mpr hhi
        have hsep : isSeparator hi = true := (hlegal hi List.mem_cons_self).resolve_left hhi
        rw [List.countP_cons_of_neg hhi] at heven
        obtain ⟨bs, hbs⟩ := ih s.length (Nat.lt_succ_self _)
          (fun c hc => hlegal c (List.mem_cons_of_mem hi hc)) heven
          (by
            rintro ⟨pre, c, post, rfl, hc, hodd⟩
            refine hwhole ⟨hi :: pre, c, post, rfl, hc, ?_⟩
            rwa [List.countP_cons_of_neg hhi])
          rfl
        exact ⟨bs, .separator hdigit hsep hbs⟩

/-! ### Texts -/

theorem stringBytes_legal (h : Legal s) :
    stringBytes s =
      if s.filter isHexDigit = [] then .error (.invalidParams "no bytes provided")
      else if (s.filter isHexDigit).length % 2 ≠ 0 then
        .error (.invalidParams "hex string has odd length")
      else decodePairs (s.filter isHexDigit) := by
  rw [stringBytes, cleanHex_ok h]
  rfl

theorem decodePairs_digits {ds : List Char} (h : ∀ c ∈ ds, isHexDigit c = true) :
    ∃ out, decodePairs ds = .ok out := by
  induction ds using decodePairs.induct with
  | case1 hi lo cs b hb ih =>
    obtain ⟨out, hout⟩ := ih fun c hc => h c (by simp [hc])
    rw [decodePairs, hb]
    simp [hout, Except.map]
  | case2 hi lo cs hnone =>
    obtain ⟨b, hb⟩ := digitsValue_of_digits (h hi (by simp)) (h lo (by simp))
    rw [parseUnsigned_pair hb] at hnone
    cases hnone
  | case3 ds hshort =>
    rw [decodePairs.eq_2 _ hshort]
    exact ⟨[], rfl⟩

/- Without a prefix the bytes come out as they were written; with one they never do. -/
theorem stringBytes_iff (h : Spells p s bs) (hne : bs ≠ []) :
    stringBytes s = .ok bs ↔ p = 0 := by
  have hpos : 0 < bs.length := List.length_pos_iff.mpr hne
  have hlen := h.length_digits
  have hcleaned : s.filter isHexDigit ≠ [] := by
    rw [← List.length_pos_iff]
    omega
  rw [stringBytes_legal h.legal, if_neg hcleaned]
  constructor
  · intro hok
    split at hok
    · cases hok
    · have hout := length_decodePairs hok
      omega
  · rintro rfl
    rw [if_neg (by omega)]
    exact h.decodePairs_digits

/- A text with a cut pair is decoded nevertheless if the number of its digits is even. -/
theorem stringBytes_cut (hlegal : Legal s) (heven : s.countP isHexDigit % 2 = 0) (hcut : Cut s) :
    ∃ out, stringBytes s = .ok out := by
  obtain ⟨pre, c, post, rfl, -, hodd⟩ := hcut
  have hne : (pre ++ c :: post).filter isHexDigit ≠ [] := by
    intro hnil
    have hcount : (pre ++ c :: post).countP isHexDigit = 0 := by
      rw [List.countP_eq_length_filter, hnil, List.length_nil]
    rw [List.countP_append] at hcount
    omega
  rw [stringBytes_legal hlegal, if_neg hne, if_neg (by rw [← List.countP_eq_length_filter]; omega)]
  exact decodePairs_digits fun c hc => (List.mem_filter.mp hc).2

/- What is accepted has the two digits of every pair side by side, or a pair is cut. -/
theorem stringBytes_unpaired (hnone : ¬ Paired s)
    (hwhole : Legal s → s.countP isHexDigit % 2 = 0 → ¬ Cut s) :
    ∃ e, stringBytes s = .error e := by
  by_cases hlegal : Legal s
  · rw [stringBytes_legal hlegal]
    split
    · exact ⟨_, rfl⟩
    · rename_i hdigits
      split
      · exact ⟨_, rfl⟩
      · rename_i heven
        rw [← List.countP_eq_length_filter, not_not] at heven
        obtain ⟨bs, hbs⟩ := spells_of_whole hlegal heven (hwhole hlegal heven)
        refine absurd ⟨0, bs, ?_, hbs⟩ hnone
        rintro rfl
        exact hdigits (List.length_eq_zero_iff.mp hbs.length_digits)
  · have hforeign : ∃ c ∈ s, isHexDigit c = false ∧ isSeparator c = false := by
      simpa [Legal] using hlegal
    obtain ⟨c, hc, hdigit, hsep⟩ := hforeign
    obtain ⟨e, he⟩ := cleanHex_error hc hdigit hsep
    rw [stringBytes, he]
    exact ⟨e, rfl⟩

/-! ### Arrays -/

theorem elementByte_of_spells {v : Value} {b : UInt8} (h : ElementSpells v b) :
    elementByte v = .ok b := by
  have hb : b.toNat < 256 := b.toNat_lt
  have hbyte : byteOf b.toNat = .ok b := by
    rw [byteOf, if_neg (by omega), UInt8.ofNat_toNat]
  cases h with
  | number => exact hbyte
  | hex hx hne hv =>
    rw [elementByte, parseAddress_hex hx hne hv (by omega)]
    exact hbyte

theorem mapM_elements {arr : List Value} (h : List.Forall₂ ElementSpells arr bs) :
    arr.mapM elementByte = .ok bs :=
  mapM_eq_ok_iff.mpr (h.imp fun _ _ => elementByte_of_spells)

/-- A payload decodes as it is written unless a pair of digits has a prefix of its own, or a
separator stands between the digits of a pair. -/
theorem payload_decodes_iff (v : Value) :
    DecodesAsWritten v ↔ ∀ s, v = .string s →
      (∀ p bs, Spells p s bs → p = 0) ∧ (Legal s → s.countP isHexDigit % 2 = 0 → ¬ Cut s) := by
  constructor
  · rintro hdecodes s rfl
    have hplain : ∀ p bs, Spells p s bs → p = 0 := by
      intro p bs hspells
      by_cases hne : bs = []
      · have hle := hspells.marks_le
        rw [hne] at hle
        exact Nat.le_zero.mp hle
      · exact (stringBytes_iff hspells hne).mp (hdecodes.written bs hne (.string hspells))
    refine ⟨hplain, fun hlegal heven hcut => ?_⟩
    have hnone : ¬ Paired s := by
      rintro ⟨p, bs, -, hspells⟩
      obtain rfl := hplain p bs hspells
      exact hspells.not_cut hcut
    obtain ⟨e, he⟩ := hdecodes.refused s rfl hnone
    obtain ⟨out, hout⟩ := stringBytes_cut hlegal heven hcut
    rw [valueToBytes, hout] at he
    cases he
  · intro hcond
    refine ⟨?_, ?_⟩
    · intro bs hne hwritten
      cases hwritten with
      | string hspells =>
        have hp := (hcond _ rfl).1 _ _ hspells
        exact (stringBytes_iff hspells hne).mpr hp
      | array helements =>
        rw [valueToBytes, mapM_elements helements]
        exact if_neg hne
      | number b =>
        have helement := elementByte_of_spells (ElementSpells.number b)
        rw [elementByte] at helement
        rw [valueToBytes, helement]
        rfl
    · rintro s rfl hnone
      exact stringBytes_unpaired hnone (hcond s rfl).2

/- Two pairs with a prefix each are decoded to three other bytes, and one is refused. Four single
digits are decoded as two bytes, though none of them is a pair. -/
theorem prefixed_payload_misread :
    (Written (.string "0x90 0x91".toList) [0x90, 0x91] ∧
      valueToBytes (.string "0x90 0x91".toList) = .ok [0x09, 0x00, 0x91]) ∧
    (Written (.string "0x90".toList) [0x90] ∧
      valueToBytes (.string "0x90".toList) =
        .error (.invalidParams "hex string has odd length")) ∧
    ¬ Paired "1 2 3 4".toList ∧ valueToBytes (.string "1 2 3 4".toList) = .ok [0x12, 0x34] := by
  have hone : Spells 1 "0x91".toList [0x91] := .marked (Or.inl rfl) (by decide) .done
  have htwo : Spells 2 "0x90 0x91".toList [0x90, 0x91] :=
    .marked (Or.inl rfl) (by decide) (.separator (by decide) (by decide) hone)
  have hnone : ¬ Paired "1 2 3 4".toList := by
    rintro ⟨p, bs, -, hspells⟩
    -- The first character is a digit, the second none, and the two no prefix.
    rcases hspells with _ | ⟨hdigit, -, -⟩ | ⟨hpair, -⟩
    · exact absurd hdigit (by decide)
    · exact absurd (isHexDigit_of_pair hpair).2 (by decide)
  exact ⟨⟨.string htwo, by decide⟩, ⟨.string (.marked (Or.inl rfl) (by decide) .done), by decide⟩,
    hnone, by decide⟩

end IdaHeadless.Payload
