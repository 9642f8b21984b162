import IdaHeadless.Radix
import IdaHeadless.ToolError
import Mathlib.Algebra.Group.Nat.Defs

/-!
# Address tokens (address.rs)

An address is hexadecimal, binary, octal or decimal; underscores are dropped before the
prefix is looked at.
-/

namespace IdaHeadless.Address

open Text Radix

variable {x : Char} {s ds : List Char} {n : ℕ}

def normalizeAddressToken (s : List Char) : List Char := (trim s).filter (· ≠ '_')

/- `strip_prefix` of a zero and either case of a letter. -/
def stripMark (lower upper : Char) (token : List Char) : Option (List Char) :=
  stripStart ['0', lower] token <|> stripStart ['0', upper] token

def parseDigits (token : List Char) : Option ℕ :=
  match stripMark 'x' 'X' token with
  | some digits => parseUnsigned 16 (2 ^ 64) digits
  | none =>
    match stripMark 'b' 'B' token with
    | some digits => parseUnsigned 2 (2 ^ 64) digits
    | none =>
      match stripMark 'o' 'O' token with
      | some digits => parseUnsigned 8 (2 ^ 64) digits
      | none => parseUnsigned 10 (2 ^ 64) token

def parseAddress (s : List Char) : Except ToolError ℕ :=
  match parseDigits (normalizeAddressToken s) with
  | some n => .ok n
  | none => .error (.invalidAddress (String.ofList (normalizeAddressToken s)))

theorem stripMark_mark {lower upper : Char} (hx : x = lower ∨ x = upper) (ds : List Char) :
    stripMark lower upper ('0' :: x :: ds) = some ds := by
  rcases hx with rfl | rfl
  · simp [stripMark, stripStart]
  · by_cases hsame : lower = x
    · simp [stripMark, stripStart, hsame]
    · simp [stripMark, stripStart, hsame]

theorem stripMark_hex (hx : x = 'x' ∨ x = 'X') (ds : List Char) :
    stripMark 'x' 'X' ('0' :: x :: ds) = some ds := stripMark_mark hx ds

theorem stripMark_eq_some {lower upper : Char} {token rest : List Char}
    (h : stripMark lower upper token = some rest) :
    ∃ x, (x = lower ∨ x = upper) ∧ token = '0' :: x :: rest := by
  match token, h with
  | [], h => simp [stripMark, stripStart] at h
  | [c], h => simp [stripMark, stripStart] at h
  | c :: d :: cs, h =>
    by_cases hc : c = '0'
    · by_cases hlower : d = lower
      · simp only [stripMark, stripStart, hc, hlower] at h
        exact ⟨lower, Or.inl rfl, by rw [hc, hlower, Option.some.inj h]⟩
      · by_cases hupper : d = upper
        · have hrest : cs = rest := by
            simpa [stripMark, stripStart, hc, hupper, hupper ▸ Ne.symm hlower] using h
          exact ⟨upper, Or.inr rfl, by rw [hc, hupper, hrest]⟩
        · simp [stripMark, stripStart, hc, Ne.symm hlower, Ne.symm hupper] at h
    · simp [stripMark, stripStart, Ne.symm hc] at h

theorem stripMark_other {lower upper : Char} (hlower : x ≠ lower) (hupper : x ≠ upper)
    (ds : List Char) : stripMark lower upper ('0' :: x :: ds) = none := by
  rw [Option.eq_none_iff_forall_ne_some]
  intro rest hmark
  obtain ⟨y, hy, htoken⟩ := stripMark_eq_some hmark
  cases htoken
  exact hy.elim hlower hupper

/- A prefixed hexadecimal number is read as it stands. -/
theorem parseAddress_hex (hx : x = 'x' ∨ x = 'X') (hne : ds ≠ [])
    (hv : digitsValue 16 0 ds = some n) (hlt : n < 2 ^ 64) :
    parseAddress ('0' :: x :: ds) = .ok n := by
  have hplain : ∀ c ∈ '0' :: x :: ds, isWhitespace c = false ∧ c ≠ '_' := by
    intro c hc
    simp only [List.mem_cons] at hc
    rcases hc with rfl | rfl | hc
    · decide
    · rcases hx with rfl | rfl <;> decide
    · exact digit_plain (digit_of_mem hv hc)
  have htrim : trim ('0' :: x :: ds) = '0' :: x :: ds := trim_eq_self fun c hc => (hplain c hc).1
  have hfilter : normalizeAddressToken ('0' :: x :: ds) = '0' :: x :: ds := by
    rw [normalizeAddressToken, htrim, List.filter_eq_self]
    intro c hc
    simpa using (hplain c hc).2
  rw [parseAddress, hfilter, parseDigits, stripMark_hex hx]
  simp only [parseUnsigned_digits hne hv hlt]

/-! ### Rendered addresses -/

theorem hexAddr_injective {a b : ℕ} (h : hexAddr a = hexAddr b) : a = b := by
  rw [hexAddr, hexAddr, String.append_right_inj, String.ofList_inj] at h
  exact toDigits_injective h

theorem toList_hexAddr (a : ℕ) : (hexAddr a).toList = '0' :: 'x' :: Nat.toDigits 16 a := by
  simp only [hexAddr, String.toList_append, String.toList_ofList]
  rfl

/- A rendered address is read back. -/
theorem parseAddress_hexAddr {a : ℕ} (ha : a < 2 ^ 64) :
    parseAddress (hexAddr a).toList = .ok a := by
  rw [toList_hexAddr]
  exact parseAddress_hex (Or.inl rfl) Nat.toDigits_ne_nil (digitsValue_hex a) ha

end IdaHeadless.Address
