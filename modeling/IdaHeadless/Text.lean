import Mathlib.Data.List.DropRight
import Mathlib.Data.List.Infix
import Mathlib.Data.Nat.Notation

/-!
# Text as lists of characters

The text functions of Rust's standard library that the programs below call: `trim`,
`split_whitespace`, `strip_prefix` and `lines` of a reader. Words joined by blanks are read back,
and a phrase is found in a text put together from several exactly when it is found in one of them,
where none of its symbols can reach over the ends.
-/

namespace IdaHeadless.Text

variable {cs : List Char} {n : ℕ}

/-! ### White space -/

/- `char::is_whitespace`: the Unicode property `White_Space`. -/
def isWhitespace (c : Char) : Bool :=
  c.toNat ∈ [0x9, 0xA, 0xB, 0xC, 0xD, 0x20, 0x85, 0xA0, 0x1680, 0x2028, 0x2029, 0x202F, 0x205F,
    0x3000] || (0x2000 ≤ c.toNat && c.toNat ≤ 0x200A)

/- `str::trim`. -/
def trim (cs : List Char) : List Char := (cs.dropWhile isWhitespace).rdropWhile isWhitespace

theorem trim_eq_self (h : ∀ c ∈ cs, isWhitespace c = false) : trim cs = cs := by
  have hleft : cs.dropWhile isWhitespace = cs := by
    rw [List.dropWhile_eq_self_iff]
    intro hl
    simp [h _ (List.getElem_mem hl)]
  rw [trim, hleft, List.rdropWhile_eq_self_iff]
  intro hne
  simp [h _ (List.getLast_mem hne)]

theorem trim_of_ends {c d : Char} {s t : List Char} (hc : isWhitespace c = false)
    (hd : isWhitespace d = false) (hleft : cs = c :: t) (hright : cs = s ++ [d]) :
    trim cs = cs := by
  have hdrop : cs.dropWhile isWhitespace = cs := by
    rw [hleft, List.dropWhile_cons_of_neg (by simp [hc])]
  rw [trim, hdrop, hright, List.rdropWhile_concat_neg _ _ _ (by simp [hd])]

/-! ### Words -/

/- `word` is the word read so far, last character first. -/
def wordsFrom (word : List Char) : List Char → List (List Char)
  | [] => if word = [] then [] else [word.reverse]
  | c :: cs =>
    if isWhitespace c then
      if word = [] then wordsFrom [] cs else word.reverse :: wordsFrom [] cs
    else wordsFrom (c :: word) cs

/- `str::split_whitespace`. -/
def words (cs : List Char) : List (List Char) := wordsFrom [] cs

theorem wordsFrom_append (word : List Char) (h : ∀ c ∈ cs, isWhitespace c = false)
    (rest : List Char) : wordsFrom word (cs ++ rest) = wordsFrom (cs.reverse ++ word) rest := by
  induction cs generalizing word with
  | nil => rfl
  | cons c cs ih =>
    have hc : isWhitespace c = false := h c List.mem_cons_self
    have htail : ∀ d ∈ cs, isWhitespace d = false := fun d hd => h d (List.mem_cons_of_mem c hd)
    rw [List.cons_append, wordsFrom, if_neg (by simp [hc]), ih (c :: word) htail,
      List.reverse_cons, List.append_assoc, List.singleton_append]

/- Words joined by single blanks are read back. -/
theorem words_join (ws : List (List Char)) (hne : ∀ w ∈ ws, w ≠ [])
    (hws : ∀ w ∈ ws, ∀ c ∈ w, isWhitespace c = false) : words ([' '].intercalate ws) = ws := by
  induction ws with
  | nil => rfl
  | cons w ws ih =>
    have hw : ∀ c ∈ w, isWhitespace c = false := hws w List.mem_cons_self
    have hrev : w.reverse ≠ [] := by simpa using hne w List.mem_cons_self
    cases ws with
    | nil =>
      have happend : wordsFrom [] (w ++ []) = wordsFrom (w.reverse ++ []) [] :=
        wordsFrom_append [] hw []
      simp only [List.append_nil] at happend
      rw [List.intercalate_singleton, words, happend, wordsFrom, if_neg hrev, List.reverse_reverse]
    | cons w' ws =>
      have hrest : words ([' '].intercalate (w' :: ws)) = w' :: ws :=
        ih (fun u hu => hne u (List.mem_cons_of_mem w hu))
          (fun u hu => hws u (List.mem_cons_of_mem w hu))
      have hblank : isWhitespace ' ' = true := by decide
      rw [List.intercalate_cons_cons, words, List.append_assoc, wordsFrom_append [] hw,
        List.append_nil, List.singleton_append, wordsFrom, if_pos hblank, if_neg hrev,
        List.reverse_reverse]
      exact congrArg (w :: ·) hrest

/- They begin and end with a character of a word. -/
theorem join_head {ws : List (List Char)} (hne : ws ≠ []) (hws : ∀ w ∈ ws, w ≠ []) :
    ∃ c t, [' '].intercalate ws = c :: t ∧ ∃ w ∈ ws, c ∈ w := by
  cases ws with
  | nil => exact absurd rfl hne
  | cons w ws =>
    obtain ⟨c, t, rfl⟩ := List.exists_cons_of_ne_nil (hws w List.mem_cons_self)
    cases ws with
    | nil => exact ⟨c, t, by simp, c :: t, by simp, by simp⟩
    | cons w' ws =>
      exact ⟨c, t ++ ' ' :: [' '].intercalate (w' :: ws), by simp, c :: t, by simp, by simp⟩

theorem join_last {ws : List (List Char)} (hne : ws ≠ []) (hws : ∀ w ∈ ws, w ≠ []) :
    ∃ s d, [' '].intercalate ws = s ++ [d] ∧ ∃ w ∈ ws, d ∈ w := by
  induction ws with
  | nil => exact absurd rfl hne
  | cons w ws ih =>
    cases ws with
    | nil =>
      obtain ⟨s, d, hw⟩ := (List.eq_nil_or_concat w).resolve_left (hws w List.mem_cons_self)
      exact ⟨s, d, by simp [hw], w, by simp, by simp [hw]⟩
    | cons w' ws =>
      have hrest : ∀ u ∈ w' :: ws, u ≠ [] := fun u hu => hws u (List.mem_cons_of_mem w hu)
      obtain ⟨s, d, hjoin, u, hu, hd⟩ := ih (by simp) hrest
      exact ⟨w ++ ' ' :: s, d, by simp [hjoin], u, List.mem_cons_of_mem w hu, hd⟩

theorem trim_join {ws : List (List Char)} (hws : ∀ w ∈ ws, w ≠ [])
    (hplain : ∀ w ∈ ws, ∀ c ∈ w, isWhitespace c = false) :
    trim ([' '].intercalate ws) = [' '].intercalate ws := by
  by_cases hne : ws = []
  · rw [hne]
    rfl
  · obtain ⟨c, t, hleft, w, hw, hc⟩ := join_head hne hws
    obtain ⟨s, d, hright, u, hu, hd⟩ := join_last hne hws
    exact trim_of_ends (hplain w hw c hc) (hplain u hu d hd) hleft hright

/-! ### Lines -/

/- The text after `pre`, if `cs` begins with it (`str::strip_prefix`). -/
def stripStart : List Char → List Char → Option (List Char)
  | [], cs => some cs
  | _ :: _, [] => none
  | p :: ps, c :: cs => if p = c then stripStart ps cs else none

/- A carriage return before the line feed belongs to the line end. `line` is the line
read so far, last character first. -/
def dropReturn : List Char → List Char
  | '\r' :: line => line
  | line => line

def linesFrom (line : List Char) : List Char → List (List Char)
  | [] => if line = [] then [] else [line.reverse]
  | c :: cs =>
    if c = '\n' then (dropReturn line).reverse :: linesFrom [] cs else linesFrom (c :: line) cs

/- `BufRead::lines`. -/
def lines (cs : List Char) : List (List Char) := linesFrom [] cs

/-! ### Digits -/

theorem isDigit_of_mem_digits {c : Char} (h : c ∈ Nat.toDigits 10 n) : c.isDigit = true :=
  Nat.isDigit_of_mem_toDigits (by decide) (by decide) h

theorem not_mem_digits {c : Char} (h : c.isDigit = false) : c ∉ Nat.toDigits 10 n := by
  intro hmem
  rw [isDigit_of_mem_digits hmem] at h
  cases h

theorem mem_digits {b : ℕ} (hb : 1 < b) {c : Char} (h : c ∈ Nat.toDigits b n) :
    ∃ d < b, c = Nat.digitChar d := by
  induction n using Nat.strong_induction_on with
  | _ n ih =>
    rw [Nat.toDigits_eq_if hb] at h
    split at h
    · rename_i hlt
      exact ⟨n, hlt, List.mem_singleton.mp h⟩
    · rename_i hge
      rcases List.mem_append.mp h with h | h
      · have hsmaller : n / b < n := Nat.div_lt_self (by omega) hb
        exact ih (n / b) hsmaller h
      · have hmod : n % b < b := Nat.mod_lt n (by omega)
        exact ⟨n % b, hmod, List.mem_singleton.mp h⟩

/-! ### Phrases in a text -/

/- A literal with its characters, which unification finds without decoding the string. -/
structure Literal where
  text : String
  chars : List Char
  text_eq : text = String.ofList chars

theorem Literal.toList_text (lit : Literal) : lit.text.toList = lit.chars := by
  rw [lit.text_eq, String.toList_ofList]

section Phrase

variable {α : Type*} {phrase pre post text : List α}

/- One of the two texts begins the other. -/
def alike [DecidableEq α] : List α → List α → Bool
  | [], _ => true
  | _, [] => true
  | a :: as, b :: bs => a = b && alike as bs

theorem alike_of_prefix_append [DecidableEq α] (h : phrase <+: pre ++ text) :
    alike pre phrase = true := by
  induction pre generalizing phrase with
  | nil => simp [alike]
  | cons c pre ih =>
    cases phrase with
    | nil => simp [alike]
    | cons d phrase =>
      obtain ⟨rfl, hrest⟩ := List.cons_prefix_cons.mp h
      simpa [alike] using ih hrest

/- The phrase begins nowhere inside a text that stands before another one. -/
def clearBefore [DecidableEq α] (phrase : List α) : List α → Bool
  | [] => true
  | c :: pre => !alike (c :: pre) phrase && clearBefore phrase pre

/- And it ends nowhere inside one that stands after another. -/
def clearAfter [DecidableEq α] (phrase post : List α) : Bool :=
  clearBefore phrase.reverse post.reverse

theorem infix_append_iff_right [DecidableEq α] (h : clearBefore phrase pre = true) :
    phrase <:+: pre ++ text ↔ phrase <:+: text := by
  induction pre with
  | nil => simp
  | cons c pre ih =>
    simp only [clearBefore, Bool.and_eq_true, Bool.not_eq_true'] at h
    have hstart : ¬ phrase <+: c :: (pre ++ text) := by
      intro hpre
      have halike : alike (c :: pre) phrase = true := alike_of_prefix_append hpre
      rw [h.1] at halike
      cases halike
    rw [List.cons_append, List.infix_cons_iff, ih h.2]
    exact or_iff_right hstart

theorem infix_append_iff_left [DecidableEq α] (h : clearAfter phrase post = true) :
    phrase <:+: text ++ post ↔ phrase <:+: text := by
  have hiff : phrase.reverse <:+: post.reverse ++ text.reverse ↔
      phrase.reverse <:+: text.reverse := infix_append_iff_right h
  rwa [← List.reverse_append, List.reverse_infix, List.reverse_infix] at hiff

/- A symbol the phrase lacks parts the text into two that can hold it. -/
theorem infix_append_cons_iff {c : α} (hc : c ∉ phrase) :
    phrase <:+: pre ++ c :: text ↔ phrase <:+: pre ∨ phrase <:+: text := by
  have hstart : ∀ s : List α, phrase <+: s ++ c :: text → phrase <+: s := by
    intro s hs
    rcases List.prefix_or_prefix_of_prefix hs (List.prefix_append s (c :: text)) with h | h
    · exact h
    · obtain ⟨q, rfl⟩ := h
      rw [List.prefix_append_right_inj] at hs
      cases q with
      | nil => simp
      | cons d q =>
        have hd : d = c := (List.cons_prefix_cons.mp hs).1
        exact absurd (by simp [hd]) hc
  induction pre with
  | nil =>
    rw [List.nil_append, List.infix_cons_iff]
    constructor
    · rintro (h | h)
      · exact Or.inl (hstart [] h).isInfix
      · exact Or.inr h
    · rintro (h | h)
      · have hnil := List.eq_nil_of_infix_nil h
        exact Or.inl (by simp [hnil])
      · exact Or.inr h
  | cons d pre ih =>
    have hiff : phrase <+: d :: (pre ++ c :: text) ↔ phrase <+: d :: pre :=
      ⟨hstart (d :: pre), fun h => h.trans (List.prefix_append (d :: pre) (c :: text))⟩
    rw [List.cons_append, List.infix_cons_iff, List.infix_cons_iff, hiff, or_assoc]
    exact or_congr_right ih

/- A text without one of the phrase's symbols does not hold the phrase. -/
theorem not_infix_of_not_mem {z : α} (hz : z ∈ phrase) (ht : z ∉ text) : ¬ phrase <:+: text :=
  fun h => ht (h.subset hz)

end Phrase

end IdaHeadless.Text
