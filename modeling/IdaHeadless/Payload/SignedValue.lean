import IdaHeadless.Payload.Bytes
import Mathlib.Algebra.Group.Int.Defs

/-!
# Signed integers (server/bytes.rs)

`parse_signed_value` takes a sign off the text, then a `0x`, then the underscores, and hands
what is left to the parser of `i128`, which takes a sign of its own. A value that was parsed
is negated without a check.
-/

namespace IdaHeadless.Payload

open Text Radix Address

/-! ### `parse_signed_value` -/

def Number.asI64 : Number → Option Int
  | .posInt n => if n < 2 ^ 63 then some n else none
  | .negInt i => some i
  | .float _ => none

def Number.display : Number → String
  | .posInt n => toString n
  | .negInt i => toString i
  | .float text => text

/-- The negation of the least `i128` overflows: a panic, or the same value again, as the
program was built. -/
inductive Parsed where
  | value (v : Int)
  | refused (e : ToolError)
  | overflow
  deriving DecidableEq

/- `str::trim_start`. -/
def trimStart (cs : List Char) : List Char := cs.dropWhile isWhitespace

def splitSign (token : List Char) : Bool × List Char :=
  match token with
  | '-' :: rest => (true, trimStart rest)
  | '+' :: rest => (false, rest)
  | token => (false, token)

def dropUnderscores (cs : List Char) : List Char := cs.filter (· ≠ '_')

/-- The radix and the text that is handed to the parser of `i128`. -/
def radixText (digits : List Char) : ℕ × List Char :=
  match stripMark 'x' 'X' digits with
  | some hex => (16, dropUnderscores hex)
  | none => (10, dropUnderscores digits)

/- `-magnitude`. -/
def negate (magnitude : Int) : Parsed :=
  if magnitude = -(2 ^ 127) then .overflow else .value (-magnitude)

def parseSignedString (s : List Char) : Parsed :=
  let (negative, digits) := splitSign (trim s)
  let (radix, text) := radixText digits
  match parseSigned radix (2 ^ 127) text with
  | none => .refused (.invalidParams ("'" ++ String.ofList s ++
      "' is not an integer; expected decimal or 0x-hex"))
  | some magnitude => if negative then negate magnitude else .value magnitude

def parseSignedValue : Value → Parsed
  | .number n =>
    match n.asI64 <|> n.asU64.map Int.ofNat with
    | some v => .value v
    | none => .refused (.invalidParams ("'" ++ n.display ++
        "' is not an integer; pass it as a string"))
  | .string s => parseSignedString s
  | _ => .refused (.invalidParams "value must be an integer or a string holding one")

/-! ### The texts that denote an integer -/

/-- Decimal digits, or hexadecimal ones behind `0x`; underscores are allowed. -/
inductive Numeral : List Char → ℕ → Prop
  | decimal {body : List Char} {n : ℕ} : dropUnderscores body ≠ [] →
    digitsValue 10 0 (dropUnderscores body) = some n → Numeral body n
  | hex {x : Char} {ds : List Char} {n : ℕ} : x = 'x' ∨ x = 'X' → dropUnderscores ds ≠ [] →
    digitsValue 16 0 (dropUnderscores ds) = some n → Numeral ('0' :: x :: ds) n

/-- At most one sign in front. White space is skipped around the whole and after a minus. -/
inductive Signed : List Char → Int → Prop
  | plain {token : List Char} {n : ℕ} : Numeral token n → Signed token n
  | plus {body : List Char} {n : ℕ} : Numeral body n → Signed ('+' :: body) n
  | minus {gap body : List Char} {n : ℕ} : (∀ c ∈ gap, isWhitespace c = true) → Numeral body n →
    Signed ('-' :: (gap ++ body)) (-n)

def Denotes (s : List Char) (v : Int) : Prop :=
  Signed (trim s) v ∧ -(2 ^ 127) ≤ v ∧ v < 2 ^ 127

/-- Exactly the texts of an `i128` are accepted, with their value, and nothing overflows. -/
structure ParsesExactly (s : List Char) : Prop where
  accepts : ∀ v, parseSignedValue (.string s) = .value v ↔ Denotes s v
  no_overflow : parseSignedValue (.string s) ≠ .overflow

/-! ### Where the code and the texts part -/

/-- What is left after the sign, the `0x` and the underscores is a sign and the digits of an
`i128`. -/
def InnerSign (radix : ℕ) (text : List Char) : Prop :=
  ∃ c ds n, text = c :: ds ∧ ds ≠ [] ∧ digitsValue radix 0 ds = some n ∧
    ((c = '+' ∧ n < 2 ^ 127) ∨ (c = '-' ∧ n ≤ 2 ^ 127))

/-- A second sign, or the least `i128`. -/
def Misread (s : List Char) : Prop :=
  let (negative, digits) := splitSign (trim s)
  let (radix, text) := radixText digits
  InnerSign radix text ∨ (negative = true ∧ digitsValue radix 0 text = some (2 ^ 127))

/-! ### The parser of `i128` -/

variable {radix bound n : ℕ} {text body ds : List Char} {m : Int}

theorem digit_not_sign {c : Char} (h : (digitValue radix c).isSome = true) :
    c ≠ '+' ∧ c ≠ '-' := by
  constructor
  · rintro rfl
    simp [digitValue, alnumValue] at h
  · rintro rfl
    simp [digitValue, alnumValue] at h

theorem parseSigned_of_ne {c : Char} (hc : c ≠ '-') :
    parseSigned radix bound (c :: ds) =
      (Radix.parseUnsigned radix bound (c :: ds)).map fun v : ℕ => (v : Int) := by
  unfold parseSigned
  split
  · rename_i rest he
    cases he
    exact absurd rfl hc
  · rfl

theorem parseSigned_digits (hne : text ≠ []) (hv : digitsValue radix 0 text = some n) :
    parseSigned radix bound text = if n < bound then some (n : Int) else none := by
  cases text with
  | nil => exact absurd rfl hne
  | cons c cs =>
    have hdigit := digit_of_mem hv List.mem_cons_self
    rw [parseSigned_of_ne (digit_not_sign hdigit).2, Radix.parseUnsigned, dropPlus_digits hdigit,
      if_neg hne, hv, Option.filter_some]
    by_cases hlt : n < bound
    · simp [hlt]
    · simp [hlt]

theorem parseSigned_plus (hne : ds ≠ []) (hv : digitsValue radix 0 ds = some n) :
    parseSigned radix bound ('+' :: ds) = if n < bound then some (n : Int) else none := by
  rw [parseSigned_of_ne (by decide), Radix.parseUnsigned, dropPlus, if_neg hne, hv,
    Option.filter_some]
  by_cases hlt : n < bound
  · simp [hlt]
  · simp [hlt]

theorem parseSigned_minus (hne : ds ≠ []) (hv : digitsValue radix 0 ds = some n) :
    parseSigned radix bound ('-' :: ds) = if n ≤ bound then some (-(n : Int)) else none := by
  rw [parseSigned, if_neg hne, hv, Option.filter_some]
  by_cases hle : n ≤ bound
  · simp [hle]
  · simp [hle]

/- It accepts digits, and a sign before digits. -/
theorem parseSigned_cases (h : parseSigned radix (2 ^ 127) text = some m) :
    (text ≠ [] ∧ ∃ n, digitsValue radix 0 text = some n) ∨ InnerSign radix text := by
  match text, h with
  | [], h => simp [parseSigned, Radix.parseUnsigned, dropPlus] at h
  | c :: ds, h =>
    by_cases hminus : c = '-'
    · subst hminus
      rw [parseSigned] at h
      split at h
      · cases h
      · rename_i hne
        obtain ⟨n, hn, -⟩ := Option.map_eq_some_iff.mp h
        obtain ⟨hv, hle⟩ := Option.filter_eq_some_iff.mp hn
        exact Or.inr ⟨'-', ds, n, rfl, hne, hv, Or.inr ⟨rfl, by simpa using hle⟩⟩
    · rw [parseSigned_of_ne hminus] at h
      obtain ⟨n, hn, -⟩ := Option.map_eq_some_iff.mp h
      simp only [Radix.parseUnsigned] at hn
      split at hn
      · cases hn
      · rename_i hne
        obtain ⟨hv, hlt⟩ := Option.filter_eq_some_iff.mp hn
        by_cases hplus : c = '+'
        · subst hplus
          exact Or.inr ⟨'+', ds, n, rfl, hne, hv, Or.inl ⟨rfl, by simpa using hlt⟩⟩
        · have hdrop : dropPlus (c :: ds) = c :: ds := by
            unfold dropPlus
            split
            · rename_i rest he
              cases he
              exact absurd rfl hplus
            · rfl
          rw [hdrop] at hv
          exact Or.inl ⟨by simp, n, hv⟩

theorem not_digits_of_innerSign (h : InnerSign radix text) : digitsValue radix 0 text = none := by
  obtain ⟨c, ds, k, rfl, -, -, hc⟩ := h
  rw [Option.eq_none_iff_forall_ne_some]
  intro n hv
  have hsign := digit_not_sign (digit_of_mem hv List.mem_cons_self)
  rcases hc with ⟨rfl, -⟩ | ⟨rfl, -⟩
  · exact hsign.1 rfl
  · exact hsign.2 rfl

theorem parseSigned_innerSign (h : InnerSign radix text) :
    ∃ m, parseSigned radix (2 ^ 127) text = some m := by
  obtain ⟨c, ds, n, rfl, hne, hv, ⟨rfl, hlt⟩ | ⟨rfl, hle⟩⟩ := h
  · exact ⟨n, by rw [parseSigned_plus hne hv, if_pos hlt]⟩
  · exact ⟨-n, by rw [parseSigned_minus hne hv, if_pos hle]⟩

/-! ### The grammar and the splitting -/

/- A digit string with underscores begins with a digit or an underscore. -/
theorem head_of_digits {c : Char} (hv : digitsValue radix 0 (dropUnderscores (c :: ds)) = some n) :
    (digitValue radix c).isSome = true ∨ c = '_' := by
  by_cases hc : c = '_'
  · exact Or.inr hc
  · refine Or.inl (digit_of_mem hv ?_)
    simp [dropUnderscores, hc]

theorem Numeral.head (h : Numeral body n) :
    ∃ c cs, body = c :: cs ∧ isWhitespace c = false ∧ c ≠ '+' ∧ c ≠ '-' := by
  cases h with
  | hex hx _ _ => exact ⟨'0', _, rfl, by decide, by decide, by decide⟩
  | decimal hne hv =>
    cases body with
    | nil => exact absurd rfl hne
    | cons c cs =>
      rcases head_of_digits hv with hdigit | rfl
      · exact ⟨c, cs, rfl, (digit_plain hdigit).1, (digit_not_sign hdigit).1,
          (digit_not_sign hdigit).2⟩
      · exact ⟨'_', cs, rfl, by decide, by decide, by decide⟩

/- The radix and the text say whether a text is a numeral, and of which number. -/
theorem numeral_iff :
    Numeral body n ↔
      (radixText body).2 ≠ [] ∧ digitsValue (radixText body).1 0 (radixText body).2 = some n := by
  constructor
  · intro h
    cases h with
    | hex hx hne hv =>
      rw [radixText, stripMark_hex hx]
      exact ⟨hne, hv⟩
    | decimal hne hv =>
      cases hmark : stripMark 'x' 'X' body with
      | none =>
        rw [radixText, hmark]
        exact ⟨hne, hv⟩
      | some rest =>
        -- The letter of the mark is no decimal digit.
        obtain ⟨x, hx, rfl⟩ := stripMark_eq_some hmark
        have hmem : x ∈ dropUnderscores ('0' :: x :: rest) := by
          rcases hx with rfl | rfl <;> simp [dropUnderscores]
        have hdigit := digit_of_mem hv hmem
        rcases hx with rfl | rfl <;> simp [digitValue, alnumValue] at hdigit
  · rintro ⟨hne, hv⟩
    cases hmark : stripMark 'x' 'X' body with
    | none =>
      rw [radixText, hmark] at hne hv
      exact .decimal hne hv
    | some rest =>
      obtain ⟨x, hx, rfl⟩ := stripMark_eq_some hmark
      rw [radixText, hmark] at hne hv
      exact .hex hx hne hv

theorem splitSign_of_ne {c : Char} {cs : List Char} (hplus : c ≠ '+') (hminus : c ≠ '-') :
    splitSign (c :: cs) = (false, c :: cs) := by
  unfold splitSign
  split
  · rename_i rest he
    cases he
    exact absurd rfl hminus
  · rename_i rest he
    cases he
    exact absurd rfl hplus
  · rfl

def withSign (negative : Bool) (n : ℕ) : Int := if negative then -(n : Int) else n

theorem signed_iff {token : List Char} {v : Int} :
    Signed token v ↔
      ∃ n, Numeral (splitSign token).2 n ∧ v = withSign (splitSign token).1 n := by
  constructor
  · intro h
    cases h with
    | plain hnum =>
      obtain ⟨c, cs, rfl, -, hplus, hminus⟩ := hnum.head
      rw [splitSign_of_ne hplus hminus]
      exact ⟨_, hnum, rfl⟩
    | plus hnum => exact ⟨_, hnum, rfl⟩
    | minus hgap hnum =>
      obtain ⟨c, cs, rfl, hc, -, -⟩ := hnum.head
      refine ⟨_, ?_, rfl⟩
      rw [splitSign, trimStart, List.dropWhile_append_of_pos hgap,
        List.dropWhile_cons_of_neg (by simp [hc])]
      exact hnum
  · rintro ⟨n, hnum, rfl⟩
    cases token with
    | nil =>
      obtain ⟨c, cs, hnil, -⟩ := hnum.head
      cases hnil
    | cons c cs =>
      by_cases hminus : c = '-'
      · subst hminus
        have hsplit : cs.takeWhile isWhitespace ++ cs.dropWhile isWhitespace = cs :=
          List.takeWhile_append_dropWhile
        have hgap : ∀ c ∈ cs.takeWhile isWhitespace, isWhitespace c = true :=
          fun c hc => List.mem_takeWhile_imp hc
        have hsigned := Signed.minus hgap hnum
        rw [splitSign, trimStart, hsplit] at hsigned
        exact hsigned
      · by_cases hplus : c = '+'
        · subst hplus
          exact Signed.plus hnum
        · rw [splitSign_of_ne hplus hminus] at hnum ⊢
          exact Signed.plain hnum

/-! ### When exactly the integers are accepted -/

variable {s : List Char} {v : Int}

theorem denotes_iff :
    Denotes s v ↔
      (radixText (splitSign (trim s)).2).2 ≠ [] ∧
      ∃ n, digitsValue (radixText (splitSign (trim s)).2).1 0 (radixText (splitSign (trim s)).2).2 =
        some n ∧ v = withSign (splitSign (trim s)).1 n ∧ -(2 ^ 127) ≤ v ∧ v < 2 ^ 127 := by
  rw [Denotes, signed_iff]
  constructor
  · rintro ⟨⟨n, hnum, hv⟩, hrange⟩
    obtain ⟨hne, hdigits⟩ := numeral_iff.mp hnum
    exact ⟨hne, n, hdigits, hv, hrange⟩
  · rintro ⟨hne, n, hdigits, hv, hrange⟩
    exact ⟨⟨n, numeral_iff.mpr ⟨hne, hdigits⟩, hv⟩, hrange⟩

/-- The outcome for the sign and the parsed magnitude. -/
def outcome (s : List Char) (negative : Bool) : Option Int → Parsed
  | none => .refused (.invalidParams ("'" ++ String.ofList s ++
      "' is not an integer; expected decimal or 0x-hex"))
  | some magnitude => if negative then negate magnitude else .value magnitude

theorem parseSignedString_eq (s : List Char) :
    parseSignedString s = outcome s (splitSign (trim s)).1
      (parseSigned (radixText (splitSign (trim s)).2).1 (2 ^ 127)
        (radixText (splitSign (trim s)).2).2) := by
  simp only [parseSignedString, outcome]

theorem negate_of_ne (h : m ≠ -(2 ^ 127)) : negate m = .value (-m) := if_neg h

/- A magnitude was parsed, so something else than a refusal comes out. -/
theorem outcome_some (negative : Bool) (m : Int) :
    outcome s negative (some m) = .overflow ∨ ∃ v, outcome s negative (some m) = .value v := by
  cases negative with
  | false => exact Or.inr ⟨m, rfl⟩
  | true =>
    by_cases hmin : m = -(2 ^ 127)
    · exact Or.inl (if_pos hmin)
    · exact Or.inr ⟨-m, negate_of_ne hmin⟩

theorem outcome_digits (negative : Bool) (hlt : n < 2 ^ 127) :
    outcome s negative (some (n : Int)) = .value (withSign negative n) := by
  cases negative with
  | false => rfl
  | true =>
    have hne : (n : Int) ≠ -(2 ^ 127) := by omega
    exact negate_of_ne hne

theorem withSign_range (negative : Bool) (hlt : n < 2 ^ 127) :
    -(2 ^ 127) ≤ withSign negative n ∧ withSign negative n < 2 ^ 127 := by
  rw [withSign]
  split <;> omega

/- Plain digits: all is well but for the least `i128`. -/
theorem parsesExactly_digits {negative : Bool}
    (hparse : parseSignedValue (.string s) = outcome s negative (parseSigned radix (2 ^ 127) text))
    (hdenotes : ∀ v, Denotes s v ↔ text ≠ [] ∧ ∃ n, digitsValue radix 0 text = some n ∧
      v = withSign negative n ∧ -(2 ^ 127) ≤ v ∧ v < 2 ^ 127)
    (hne : text ≠ []) (hv : digitsValue radix 0 text = some n) :
    ParsesExactly s ↔ ¬ (negative = true ∧ n = 2 ^ 127) := by
  have hdenotes' : ∀ v, Denotes s v ↔
      v = withSign negative n ∧ -(2 ^ 127) ≤ v ∧ v < 2 ^ 127 := by
    intro v
    rw [hdenotes]
    constructor
    · rintro ⟨-, k, hk, hrest⟩
      rw [Option.some.inj (hv.symm.trans hk)]
      exact hrest
    · intro hrest
      exact ⟨hne, n, hv, hrest⟩
  rw [parseSigned_digits hne hv] at hparse
  by_cases hlt : n < 2 ^ 127
  · rw [if_pos hlt, outcome_digits negative hlt] at hparse
    have hrange := withSign_range negative hlt
    refine iff_of_true ⟨?_, ?_⟩ (by omega)
    · intro v
      rw [hparse, hdenotes']
      constructor
      · intro h
        rw [← Parsed.value.inj h]
        exact ⟨rfl, hrange⟩
      · rintro ⟨rfl, -⟩
        rfl
    · rw [hparse]
      simp
  · rw [if_neg hlt] at hparse
    have hrefused : ∀ v, parseSignedValue (.string s) ≠ .value v := by
      intro v
      rw [hparse]
      simp [outcome]
    constructor
    · rintro hexact ⟨rfl, rfl⟩
      have hleast := (hexact.accepts (-(2 ^ 127))).mpr ((hdenotes' _).mpr (by simp [withSign]))
      exact hrefused _ hleast
    · intro hnot
      refine ⟨fun v => iff_of_false (hrefused v) ?_, by rw [hparse]; simp [outcome]⟩
      rw [hdenotes']
      rintro ⟨rfl, hmin, hmax⟩
      cases negative with
      | false =>
        simp only [withSign, Bool.false_eq_true, if_false] at hmax
        omega
      | true =>
        simp only [withSign, if_true] at hmin
        exact hnot ⟨rfl, by omega⟩

/- Anything else denotes nothing, so it must be refused. -/
theorem parsesExactly_other {negative : Bool}
    (hparse : parseSignedValue (.string s) = outcome s negative (parseSigned radix (2 ^ 127) text))
    (hdenotes : ∀ v, ¬ Denotes s v)
    (hother : ¬ (text ≠ [] ∧ ∃ n, digitsValue radix 0 text = some n)) :
    ParsesExactly s ↔ ¬ InnerSign radix text := by
  constructor
  · intro hexact hinner
    obtain ⟨m, hm⟩ := parseSigned_innerSign hinner
    rw [hm] at hparse
    rcases outcome_some negative m with hover | ⟨v, hvalue⟩
    · exact hexact.no_overflow (hparse.trans hover)
    · exact hdenotes v ((hexact.accepts v).mp (hparse.trans hvalue))
  · intro hnot
    have hnone : parseSigned radix (2 ^ 127) text = none := by
      rw [Option.eq_none_iff_forall_ne_some]
      intro m hm
      rcases parseSigned_cases hm with hdigits | hinner
      · exact hother hdigits
      · exact hnot hinner
    rw [hnone] at hparse
    refine ⟨fun v => iff_of_false ?_ (hdenotes v), ?_⟩
    · rw [hparse]
      simp [outcome]
    · rw [hparse]
      simp [outcome]

/-- A text is read as the number it denotes unless it has a second sign or is the least `i128`. -/
theorem signed_parsing_iff (s : List Char) : ParsesExactly s ↔ ¬ Misread s := by
  have hparse : parseSignedValue (.string s) = _ := parseSignedString_eq s
  have hdenotes := fun v => @denotes_iff s v
  simp only [Misread]
  generalize (splitSign (trim s)).1 = negative at *
  generalize (radixText (splitSign (trim s)).2).1 = radix at *
  generalize (radixText (splitSign (trim s)).2).2 = text at *
  by_cases hdigits : text ≠ [] ∧ ∃ n, digitsValue radix 0 text = some n
  · obtain ⟨hne, n, hv⟩ := hdigits
    have hinner : ¬ InnerSign radix text := by
      intro hinner
      rw [not_digits_of_innerSign hinner] at hv
      cases hv
    rw [parsesExactly_digits hparse hdenotes hne hv, hv, Option.some.injEq]
    simp [hinner]
  · have hnothing : ∀ v, ¬ Denotes s v := by
      intro v hd
      obtain ⟨hne, n, hv, -⟩ := (hdenotes v).mp hd
      exact hdigits ⟨hne, n, hv⟩
    have hleast : digitsValue radix 0 text ≠ some (2 ^ 127) := by
      intro hv
      by_cases hnil : text = []
      · simp [hnil, digitsValue] at hv
      · exact hdigits ⟨hnil, _, hv⟩
    rw [parsesExactly_other hparse hnothing hdigits]
    simp only [hleast, and_false, or_false]

/- A doubled sign is taken, the least `i128` is refused, and negating it overflows. -/
theorem signs_misread :
    (parseSignedValue (.string "--5".toList) = .value 5 ∧ ¬ Denotes "--5".toList 5) ∧
    (Denotes "-170141183460469231731687303715884105728".toList (-(2 ^ 127)) ∧
      parseSignedValue (.string "-170141183460469231731687303715884105728".toList) ≠
        .value (-(2 ^ 127))) ∧
    parseSignedValue (.string "--170141183460469231731687303715884105728".toList) = .overflow := by
  refine ⟨⟨by decide +kernel, ?_⟩, ⟨?_, by decide +kernel⟩, by decide +kernel⟩
  · rw [denotes_iff]
    rintro ⟨-, n, hv, -⟩
    have hnone : digitsValue (radixText (splitSign (trim "--5".toList)).2).1 0
        (radixText (splitSign (trim "--5".toList)).2).2 = none := by decide +kernel
    rw [hnone] at hv
    cases hv
  · rw [denotes_iff]
    exact ⟨by decide +kernel, 2 ^ 127, by decide +kernel, by decide +kernel, by decide⟩

end IdaHeadless.Payload
