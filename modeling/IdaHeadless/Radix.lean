import IdaHeadless.Text

/-!
# Numbers and bytes in a radix, as text

`char::to_digit`, `from_str_radix` of the unsigned and of the signed types, and the formats
`{:02x}` and `{:02X}` of a byte. A byte printed with two digits is read back.
-/

namespace IdaHeadless.Radix

open Text

variable {radix acc bound d v : ℕ} {c : Char} {cs ds : List Char}

/-! ### Digits -/

/-- The value of an ASCII digit or letter in the largest radix. -/
def alnumValue (c : Char) : Option ℕ :=
  if '0' ≤ c ∧ c ≤ '9' then some (c.toNat - 48)
  else if 'a' ≤ c ∧ c ≤ 'z' then some (c.toNat - 87)
  else if 'A' ≤ c ∧ c ≤ 'Z' then some (c.toNat - 55)
  else none

/- `char::to_digit`. -/
def digitValue (radix : ℕ) (c : Char) : Option ℕ := (alnumValue c).filter (· < radix)

/-- The value of a digit string, most significant digit first. The arithmetic of
`from_str_radix` is checked; as digits only add, it overflows exactly when the value of the
whole string does. -/
def digitsValue (radix : ℕ) : ℕ → List Char → Option ℕ
  | acc, [] => some acc
  | acc, c :: cs => (digitValue radix c).bind fun d => digitsValue radix (radix * acc + d) cs

/- A digit is an ASCII letter or numeral. -/
theorem digit_plain (h : (digitValue radix c).isSome = true) :
    isWhitespace c = false ∧ c ≠ '_' := by
  obtain ⟨d, hd⟩ := Option.isSome_iff_exists.mp h
  have halnum := (Option.filter_eq_some_iff.mp hd).1
  have hrange : (48 ≤ c.toNat ∧ c.toNat ≤ 57) ∨ (97 ≤ c.toNat ∧ c.toNat ≤ 122) ∨
      (65 ≤ c.toNat ∧ c.toNat ≤ 90) := by
    simp only [alnumValue, Char.le_def, UInt32.le_iff_toNat_le] at halnum
    split at halnum
    · rename_i hrange
      exact Or.inl hrange
    · split at halnum
      · rename_i hrange
        exact Or.inr (Or.inl hrange)
      · split at halnum
        · rename_i hrange
          exact Or.inr (Or.inr hrange)
        · cases halnum
  constructor
  · simp only [isWhitespace, List.mem_cons, List.not_mem_nil, or_false, Bool.or_eq_false_iff,
      decide_eq_false_iff_not, Bool.and_eq_false_iff, decide_eq_false_iff_not]
    omega
  · rintro rfl
    simp at hrange

theorem digitsValue_cons_some (h : digitsValue radix acc (c :: cs) = some v) :
    ∃ d, digitValue radix c = some d ∧ digitsValue radix (radix * acc + d) cs = some v :=
  Option.bind_eq_some_iff.mp h

theorem digit_of_mem (h : digitsValue radix acc ds = some v) (hc : c ∈ ds) :
    (digitValue radix c).isSome = true := by
  induction ds generalizing acc with
  | nil => cases hc
  | cons e ds ih =>
    obtain ⟨d, hd, hrest⟩ := digitsValue_cons_some h
    rcases List.mem_cons.mp hc with he | he
    · rw [he, hd]
      rfl
    · exact ih hrest he

/-! ### Whole numbers -/

/- An optional plus sign is no digit. -/
def dropPlus : List Char → List Char
  | '+' :: cs => cs
  | cs => cs

/- `from_str_radix` of an unsigned type with values below `bound`, and `str::parse` with radix
ten. -/
def parseUnsigned (radix bound : ℕ) (cs : List Char) : Option ℕ :=
  let ds := dropPlus cs
  if ds = [] then none else (digitsValue radix 0 ds).filter (· < bound)

/- `from_str_radix` of a signed type with the values from `-bound` to `bound - 1`. -/
def parseSigned (radix bound : ℕ) (cs : List Char) : Option Int :=
  match cs with
  | '-' :: ds =>
    if ds = [] then none else
      ((digitsValue radix 0 ds).filter (· ≤ bound)).map fun v : ℕ => -(v : Int)
  | cs => (parseUnsigned radix bound cs).map fun v : ℕ => (v : Int)

/-! ### Two digits -/

/- `{:x}` and `{:X}` of a number below sixteen. -/
def lowerDigit (d : ℕ) : Char := Char.ofNat (if d < 10 then 48 + d else 87 + d)
def upperDigit (d : ℕ) : Char := Char.ofNat (if d < 10 then 48 + d else 55 + d)

/- `{:02x}` and `{:02X}` of a byte. -/
def lowerByte (b : UInt8) : List Char := [lowerDigit (b.toNat / 16), lowerDigit (b.toNat % 16)]
def upperByte (b : UInt8) : List Char := [upperDigit (b.toNat / 16), upperDigit (b.toNat % 16)]

theorem digitValue_upperDigit (h : d < 16) : digitValue 16 (upperDigit d) = some d := by
  have hall : ∀ d < 16, digitValue 16 (upperDigit d) = some d := by decide
  exact hall d h

theorem high_lt (b : UInt8) : b.toNat / 16 < 16 := by
  have hb : b.toNat < 256 := b.toNat_lt
  omega

theorem low_lt (b : UInt8) : b.toNat % 16 < 16 := Nat.mod_lt _ (by omega)

theorem digitsValue_pair {c e : Char} {hi lo : ℕ} (hc : digitValue 16 c = some hi)
    (he : digitValue 16 e = some lo) : digitsValue 16 0 [c, e] = some (16 * hi + lo) := by
  simp [digitsValue, hc, he]

theorem digitsValue_upperByte (b : UInt8) : digitsValue 16 0 (upperByte b) = some b.toNat := by
  have hpair := digitsValue_pair (digitValue_upperDigit (high_lt b))
    (digitValue_upperDigit (low_lt b))
  rwa [Nat.div_add_mod] at hpair

/- A digit is no sign, so a digit string is read whole. -/
theorem dropPlus_digits (h : (digitValue radix c).isSome = true) :
    dropPlus (c :: cs) = c :: cs := by
  have hc : c ≠ '+' := by
    rintro rfl
    simp [digitValue, alnumValue] at h
  unfold dropPlus
  split
  · rename_i tail he
    cases he
    exact absurd rfl hc
  · rfl

theorem parseUnsigned_digits (hne : ds ≠ []) (hv : digitsValue radix 0 ds = some v)
    (hlt : v < bound) : parseUnsigned radix bound ds = some v := by
  cases ds with
  | nil => exact absurd rfl hne
  | cons c cs =>
    have hplus : dropPlus (c :: cs) = c :: cs :=
      dropPlus_digits (digit_of_mem hv List.mem_cons_self)
    simp [parseUnsigned, hplus, hv, hlt]

theorem parseUnsigned_eq_some (h : parseUnsigned radix bound cs = some v) :
    dropPlus cs ≠ [] ∧ digitsValue radix 0 (dropPlus cs) = some v ∧ v < bound := by
  simp only [parseUnsigned] at h
  split at h
  · cases h
  · rename_i hne
    obtain ⟨hv, hlt⟩ := Option.filter_eq_some_iff.mp h
    exact ⟨hne, hv, by simpa using hlt⟩

/- One plus sign in front of the digits is read over. -/
theorem parseUnsigned_plus (hne : ds ≠ []) (hv : digitsValue radix 0 ds = some v)
    (hlt : v < bound) : parseUnsigned radix bound ('+' :: ds) = some v := by
  simp [parseUnsigned, dropPlus, hne, hv, hlt]

/-! ### Printed numbers -/

theorem digitsValue_append (ds es : List Char) :
    digitsValue radix acc (ds ++ es) =
      (digitsValue radix acc ds).bind fun v => digitsValue radix v es := by
  induction ds generalizing acc with
  | nil => rfl
  | cons c ds ih =>
    rw [List.cons_append, digitsValue, digitsValue, Option.bind_assoc]
    congr 1
    funext d
    exact ih

theorem digitValue_digitChar (hradix : radix ≤ 16) (h : d < radix) :
    digitValue radix (Nat.digitChar d) = some d := by
  have hall : ∀ d < 16, alnumValue (Nat.digitChar d) = some d := by decide
  rw [digitValue, hall d (h.trans_le hradix), Option.filter_some, if_pos (by simpa using h)]

/- What `{}` and `{:x}` print has the value of the number. -/
theorem digitsValue_toDigits (hone : 1 < radix) (hradix : radix ≤ 16) (n : ℕ) :
    digitsValue radix 0 (Nat.toDigits radix n) = some n := by
  induction n using Nat.strong_induction_on with
  | _ n ih =>
    rw [Nat.toDigits_eq_if hone]
    split
    · rename_i hlt
      simp [digitsValue, digitValue_digitChar hradix hlt]
    · rename_i hge
      have hsmaller : n / radix < n := Nat.div_lt_self (by omega) hone
      have hmod : n % radix < radix := Nat.mod_lt n (by omega)
      rw [digitsValue_append, ih (n / radix) hsmaller, Option.bind_some, digitsValue,
        digitValue_digitChar hradix hmod, Option.bind_some, digitsValue, Nat.div_add_mod]

theorem digitsValue_hex (n : ℕ) : digitsValue 16 0 (Nat.toDigits 16 n) = some n :=
  digitsValue_toDigits (by decide) (by decide) n

theorem toDigits_injective {m n : ℕ} (h : Nat.toDigits 16 m = Nat.toDigits 16 n) : m = n := by
  have hm := digitsValue_hex m
  rw [h, digitsValue_hex n] at hm
  exact (Option.some.inj hm).symm

/- What `{}` prints, `parse` reads. -/
theorem parse_decimal {n : ℕ} (h : n < bound) :
    parseUnsigned 10 bound (Nat.toDigits 10 n) = some n := by
  have hvalue : digitsValue 10 0 (Nat.toDigits 10 n) = some n :=
    digitsValue_toDigits (by decide) (by decide) n
  exact parseUnsigned_digits Nat.toDigits_ne_nil hvalue h

end IdaHeadless.Radix
