import IdaHeadless.Address

/-!
# The grammar of an address (address.rs)

`FromStr` of `Address` hands what follows the prefix to `from_str_radix`, which reads over one plus
sign. But for that it accepts the digit strings of the four radixes, each with its value.
-/

namespace IdaHeadless.Address

open Text Radix

variable {s token ds : List Char} {radix n : ℕ} {x : Char}

/-- The radix of a token and what follows its prefix. -/
inductive Spelled : List Char → ℕ → List Char → Prop
  | decimal (ds : List Char) : Spelled ds 10 ds
  | hex {x : Char} (ds : List Char) : x = 'x' ∨ x = 'X' → Spelled ('0' :: x :: ds) 16 ds
  | binary {x : Char} (ds : List Char) : x = 'b' ∨ x = 'B' → Spelled ('0' :: x :: ds) 2 ds
  | octal {x : Char} (ds : List Char) : x = 'o' ∨ x = 'O' → Spelled ('0' :: x :: ds) 8 ds

/-- Digits of the radix of the prefix, with a value that fits. -/
def IsAddress (s : List Char) (n : ℕ) : Prop :=
  ∃ radix ds, Spelled (normalizeAddressToken s) radix ds ∧ ds ≠ [] ∧
    digitsValue radix 0 ds = some n ∧ n < 2 ^ 64

/-- The same with a plus sign in front of the digits. -/
def IsSignedAddress (s : List Char) (n : ℕ) : Prop :=
  ∃ radix ds, Spelled (normalizeAddressToken s) radix ('+' :: ds) ∧ ds ≠ [] ∧
    digitsValue radix 0 ds = some n ∧ n < 2 ^ 64

/-! ### The prefix -/

/- A letter that is no digit of the radix. -/
theorem parseUnsigned_letter (hletter : digitValue radix x = none) :
    Radix.parseUnsigned radix (2 ^ 64) ('0' :: x :: ds) = none := by
  rw [Option.eq_none_iff_forall_ne_some]
  intro n hn
  obtain ⟨-, hv, -⟩ := parseUnsigned_eq_some hn
  have hdigit : (digitValue radix x).isSome = true := digit_of_mem hv (by simp [dropPlus])
  rw [hletter] at hdigit
  cases hdigit

/- So what is read as a decimal number has no prefix. -/
theorem stripMark_decimal {lower upper : Char} (hlower : digitValue 10 lower = none)
    (hupper : digitValue 10 upper = none)
    (hparse : Radix.parseUnsigned 10 (2 ^ 64) token = some n) :
    stripMark lower upper token = none := by
  rw [Option.eq_none_iff_forall_ne_some]
  intro rest hmark
  obtain ⟨x, hx, rfl⟩ := stripMark_eq_some hmark
  have hletter : digitValue 10 x = none := by
    rcases hx with rfl | rfl
    · exact hlower
    · exact hupper
  rw [parseUnsigned_letter hletter] at hparse
  cases hparse

theorem spelled_of_parseDigits (h : parseDigits token = some n) :
    ∃ radix ds, Spelled token radix ds ∧ Radix.parseUnsigned radix (2 ^ 64) ds = some n := by
  unfold parseDigits at h
  split at h
  · rename_i ds hmark
    obtain ⟨x, hx, rfl⟩ := stripMark_eq_some hmark
    exact ⟨16, ds, .hex ds hx, h⟩
  · split at h
    · rename_i ds hmark
      obtain ⟨x, hx, rfl⟩ := stripMark_eq_some hmark
      exact ⟨2, ds, .binary ds hx, h⟩
    · split at h
      · rename_i ds hmark
        obtain ⟨x, hx, rfl⟩ := stripMark_eq_some hmark
        exact ⟨8, ds, .octal ds hx, h⟩
      · exact ⟨10, token, .decimal token, h⟩

theorem parseDigits_of_spelled (hspelled : Spelled token radix ds)
    (h : Radix.parseUnsigned radix (2 ^ 64) ds = some n) : parseDigits token = some n := by
  unfold parseDigits
  cases hspelled with
  | decimal =>
    rw [stripMark_decimal (by decide) (by decide) h, stripMark_decimal (by decide) (by decide) h,
      stripMark_decimal (by decide) (by decide) h]
    exact h
  | hex ds hx =>
    rw [stripMark_mark hx]
    exact h
  | @binary x ds hx =>
    have hhex : stripMark 'x' 'X' ('0' :: x :: ds) = none := by
      rcases hx with rfl | rfl <;> exact stripMark_other (by decide) (by decide) ds
    rw [hhex, stripMark_mark hx]
    exact h
  | @octal x ds hx =>
    have hhex : stripMark 'x' 'X' ('0' :: x :: ds) = none := by
      rcases hx with rfl | rfl <;> exact stripMark_other (by decide) (by decide) ds
    have hbinary : stripMark 'b' 'B' ('0' :: x :: ds) = none := by
      rcases hx with rfl | rfl <;> exact stripMark_other (by decide) (by decide) ds
    rw [hhex, hbinary, stripMark_mark hx]
    exact h

/-! ### What is accepted -/

theorem parseAddress_eq_ok :
    parseAddress s = .ok n ↔ parseDigits (normalizeAddressToken s) = some n := by
  unfold parseAddress
  split
  · rename_i v hv
    rw [hv, Except.ok.injEq, Option.some.injEq]
  · rename_i hv
    rw [hv]
    simp

theorem isAddress_of_parse (h : parseAddress s = .ok n) : IsAddress s n ∨ IsSignedAddress s n := by
  obtain ⟨radix, ds, hspelled, hparse⟩ := spelled_of_parseDigits (parseAddress_eq_ok.mp h)
  obtain ⟨hne, hv, hlt⟩ := parseUnsigned_eq_some hparse
  cases ds with
  | nil => exact absurd rfl hne
  | cons c ds =>
    by_cases hplus : c = '+'
    · subst hplus
      exact .inr ⟨radix, ds, hspelled, hne, hv, hlt⟩
    · have hdrop : dropPlus (c :: ds) = c :: ds := by
        unfold dropPlus
        split
        · rename_i tail he
          cases he
          exact absurd rfl hplus
        · rfl
      rw [hdrop] at hv
      exact .inl ⟨radix, c :: ds, hspelled, List.cons_ne_nil c ds, hv, hlt⟩

theorem parse_of_isAddress (h : IsAddress s n) : parseAddress s = .ok n := by
  obtain ⟨radix, ds, hspelled, hne, hv, hlt⟩ := h
  exact parseAddress_eq_ok.mpr (parseDigits_of_spelled hspelled (parseUnsigned_digits hne hv hlt))

theorem parse_of_isSignedAddress (h : IsSignedAddress s n) : parseAddress s = .ok n := by
  obtain ⟨radix, ds, hspelled, hne, hv, hlt⟩ := h
  exact parseAddress_eq_ok.mpr (parseDigits_of_spelled hspelled (parseUnsigned_plus hne hv hlt))

/-- What `parse_address` accepts: the addresses, and those with a plus sign. -/
theorem parse_iff : parseAddress s = .ok n ↔ IsAddress s n ∨ IsSignedAddress s n :=
  ⟨isAddress_of_parse, fun h => h.elim parse_of_isAddress parse_of_isSignedAddress⟩

end IdaHeadless.Address
