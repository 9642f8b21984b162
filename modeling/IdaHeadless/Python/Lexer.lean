import IdaHeadless.Radix
import IdaHeadless.Transducer

/-!
# String literals in Python source

A reader of Python source that takes the comments out and the string literals apart. It knows the
literals of one line in either quote, plain ones with their escapes, and formatted ones whose text
is kept as it stands. Raw and byte strings, triple quotes, named characters and joined lines are
refused.
-/

namespace IdaHeadless.Python

open Radix Transducer

inductive Kind where
  | plain
  | formatted
  deriving DecidableEq

/-- A character of the code, or a literal with its quote and its value. -/
inductive Piece where
  | char (c : Char)
  | literal (quote : Char) (value : List Char)
  | formatted (quote : Char) (raw : List Char)
  deriving DecidableEq

/-- Where the reader stands. The word in front of it and the body of a literal are kept last
character first. -/
inductive Mode where
  | code (word : List Char)
  | comment
  | opened (kind : Kind) (quote : Char)
  | closedEmpty (quote : Char)
  | inside (kind : Kind) (quote : Char) (body : List Char)
  | escape (kind : Kind) (quote : Char) (body : List Char)
  | octal (quote : Char) (body : List Char) (digits value : ℕ)
  | hex (quote : Char) (body : List Char) (missing value : ℕ)
  deriving DecidableEq

/-! ### The grammar -/

/- A line ends with a line feed, a carriage return or both. -/
def newlines : List Char → List Char
  | '\r' :: '\n' :: cs => '\n' :: newlines cs
  | '\r' :: cs => '\n' :: newlines cs
  | c :: cs => c :: newlines cs
  | [] => []

def isWordChar (c : Char) : Bool := c.isAlphanum || c = '_' || 128 ≤ c.toNat

/-- The prefix of a literal. A word that is none does not belong to it. -/
def kindOf (word : List Char) : Option Kind :=
  let lower := word.reverse.map Char.toLower
  if lower = ['f'] then some .formatted
  else if lower ∈ [['r'], ['b'], ['b', 'r'], ['r', 'b'], ['f', 'r'], ['r', 'f'], ['t'], ['t', 'r'],
      ['r', 't']] then none
  else some .plain

/-- The escapes of one character. -/
def simpleEscape : Char → Option (List Char)
  | '\n' => some []
  | '\\' => some ['\\']
  | '\'' => some ['\'']
  | '"' => some ['"']
  | 'a' => some ['\x07']
  | 'b' => some ['\x08']
  | 'f' => some ['\x0c']
  | 'n' => some ['\n']
  | 'r' => some ['\r']
  | 't' => some ['\t']
  | 'v' => some ['\x0b']
  | _ => none

/- The digits of `\x`, `\u` and `\U`. -/
def hexDigits : Char → Option ℕ
  | 'x' => some 2
  | 'u' => some 4
  | 'U' => some 8
  | _ => none

/- The braces of a formatted literal. -/
def balanced (raw : List Char) : Bool :=
  raw.foldlM (fun depth c =>
    if c = '{' then some (depth + 1)
    else if c = '}' then if depth = 0 then none else some (depth - 1)
    else some depth) 0 = some 0

def close (kind : Kind) (quote : Char) (body : List Char) : Option Piece :=
  match kind with
  | .plain => some (.literal quote body.reverse)
  | .formatted => if balanced body.reverse then some (.formatted quote body.reverse) else none

def stepCode (word : List Char) (c : Char) : Option (Mode × List Piece) :=
  if c = '#' then some (.comment, [])
  else if c = '"' ∨ c = '\'' then (kindOf word).map fun kind => (.opened kind c, [])
  else if c = '\\' then none
  else some (.code (if isWordChar c then c :: word else []), [.char c])

def stepInside (kind : Kind) (quote : Char) (body : List Char) (c : Char) :
    Option (Mode × List Piece) :=
  if c = quote then (close kind quote body).map fun piece => (.code [], [piece])
  else if c = '\\' then some (.escape kind quote body, [])
  else if c = '\n' then none
  else some (.inside kind quote (c :: body), [])

/- A backslash before another character stays. -/
def stepEscape (quote : Char) (body : List Char) (c : Char) : Option Mode :=
  match simpleEscape c with
  | some cs => some (.inside .plain quote (cs ++ body))
  | none =>
    match digitValue 8 c with
    | some d => some (.octal quote body 1 d)
    | none =>
      match hexDigits c with
      | some missing => some (.hex quote body missing 0)
      | none => if c = 'N' then none else some (.inside .plain quote (c :: '\\' :: body))

def stepHex (quote : Char) (body : List Char) (missing value : ℕ) (c : Char) : Option Mode :=
  (digitValue 16 c).bind fun d =>
    if missing = 1 then
      if (16 * value + d).isValidChar then
        some (.inside .plain quote (Char.ofNat (16 * value + d) :: body))
      else none
    else some (.hex quote body (missing - 1) (16 * value + d))

def step (mode : Mode) (c : Char) : Option (Mode × List Piece) :=
  if c = '\x00' then none
  else match mode with
  | .code word => stepCode word c
  | .comment => some (if c = '\n' then (.code [], [.char c]) else (.comment, []))
  | .opened kind quote =>
    if c = quote then (close kind quote []).map fun piece => (.closedEmpty quote, [piece])
    else stepInside kind quote [] c
  | .closedEmpty quote => if c = quote then none else stepCode [] c
  | .inside kind quote body => stepInside kind quote body c
  | .escape .plain quote body => (stepEscape quote body c).map fun mode => (mode, [])
  | .escape .formatted quote body =>
    if c = '\n' then none else some (.inside .formatted quote (c :: '\\' :: body), [])
  | .octal quote body digits value =>
    match digitValue 8 c with
    | some d =>
      if digits < 3 then some (.octal quote body (digits + 1) (8 * value + d), [])
      else stepInside .plain quote (Char.ofNat value :: body) c
    | none => stepInside .plain quote (Char.ofNat value :: body) c
  | .hex quote body missing value => (stepHex quote body missing value c).map fun mode => (mode, [])

/- No literal is left open. -/
def complete : Mode → Bool
  | .code _ => true
  | .comment => true
  | .closedEmpty _ => true
  | _ => false

def lex (source : List Char) : Option (List Piece) :=
  (run step (.code []) (newlines source)).bind fun (mode, ps) =>
    if complete mode then some ps else none

/-! ### Line ends -/

variable {cs body body' value value' : List Char} {ps : List Piece} {c d : Char}

theorem newlines_cons (h : c ≠ '\r') (cs : List Char) : newlines (c :: cs) = c :: newlines cs := by
  conv => lhs; unfold newlines
  split
  · rename_i he
    cases he
    exact absurd rfl h
  · rename_i he
    cases he
    exact absurd rfl h
  · rename_i he
    cases he
    rfl
  · rename_i he
    cases he

theorem newlines_append (h : '\r' ∉ cs) (ds : List Char) :
    newlines (cs ++ ds) = cs ++ newlines ds := by
  induction cs with
  | nil => rfl
  | cons c cs ih =>
    rw [List.mem_cons, not_or] at h
    rw [List.cons_append, newlines_cons (Ne.symm h.1), ih h.2, List.cons_append]

theorem newlines_eq_self (h : '\r' ∉ cs) : newlines cs = cs := by
  have happend := newlines_append h []
  rwa [newlines, List.append_nil] at happend

/-! ### Texts read as code -/

/-- The pieces of a text of code. -/
def pieces (cs : List Char) : List Piece := (run step (.code []) cs).elim [] Prod.snd

/-- The text ends where it begins, outside of comments, literals and words. -/
def endsInCode (cs : List Char) : Bool :=
  (run step (.code []) cs).map Prod.fst = some (.code [])

theorem reads_pieces (h : endsInCode cs = true) :
    Reads step (.code []) cs (.code []) (pieces cs) := by
  rw [endsInCode, decide_eq_true_eq] at h
  obtain ⟨⟨mode, ps⟩, hrun, hmode⟩ := Option.map_eq_some_iff.mp h
  cases hmode
  rw [pieces, hrun]
  exact hrun

theorem pieces_eq (h : Reads step (.code []) cs (.code []) ps) : pieces cs = ps := by
  rw [Reads] at h
  rw [pieces, h]
  rfl

theorem endsInCode_of_reads (h : Reads step (.code []) cs (.code []) ps) :
    endsInCode cs = true := by
  rw [Reads] at h
  rw [endsInCode, h]
  rfl

theorem lex_of_reads (hplain : newlines cs = cs) (h : Reads step (.code []) cs (.code []) ps) :
    lex cs = some ps := by
  rw [Reads] at h
  rw [lex, hplain, h]
  rfl

/-! ### Words -/

theorem word_ne (hc : isWordChar c = true) (hd : isWordChar d = false) : c ≠ d := by
  rintro rfl
  rw [hd] at hc
  cases hc

theorem step_word (h : isWordChar c = true) (word : List Char) :
    step (.code word) c = some (.code (c :: word), [.char c]) := by
  have hnul : c ≠ '\x00' := word_ne h rfl
  have hcomment : c ≠ '#' := word_ne h rfl
  have hquote : c ≠ '"' ∧ c ≠ '\'' := ⟨word_ne h rfl, word_ne h rfl⟩
  have hslash : c ≠ '\\' := word_ne h rfl
  simp only [step, stepCode, hnul, hcomment, hquote.1, hquote.2, hslash, or_self, if_false, h,
    if_true]

/- A word is read as its characters. -/
theorem reads_word (h : ∀ c ∈ cs, isWordChar c = true) (word : List Char) :
    Reads step (.code word) cs (.code (cs.reverse ++ word)) (cs.map Piece.char) := by
  induction cs generalizing word with
  | nil => exact Reads.nil
  | cons c cs ih =>
    rw [List.forall_mem_cons] at h
    have hrest := ih h.2 (c :: word)
    rw [List.reverse_cons, List.append_assoc, List.singleton_append]
    exact Reads.cons (step_word h.1 word) hrest

/-! ### Literals -/

theorem reads_quote : Reads step (.code []) ['"'] (.opened .plain '"') [] := rfl

/-- Inside double quotes the text stands for these characters, and does not end the literal. -/
def Denotes (body value : List Char) : Prop :=
  ∀ pre, Reads step (.inside .plain '"' pre) body (.inside .plain '"' (value.reverse ++ pre)) []

theorem Denotes.nil : Denotes [] [] := fun _ => rfl

theorem Denotes.append (h : Denotes body value) (h' : Denotes body' value') :
    Denotes (body ++ body') (value ++ value') := by
  intro pre
  rw [List.reverse_append, List.append_assoc]
  exact (h pre).append (h' (value.reverse ++ pre))

/- Most characters stand for themselves. -/
theorem denotes_char (hquote : c ≠ '"') (hslash : c ≠ '\\') (hline : c ≠ '\n')
    (hnul : c ≠ '\x00') : Denotes [c] [c] := by
  intro pre
  apply Reads.single
  simp only [step, hnul, if_false, stepInside, hquote, hslash, hline]
  rfl

theorem denotes_escape (hescape : simpleEscape c = some [d]) (hnul : c ≠ '\x00') :
    Denotes ['\\', c] [d] := by
  intro pre
  have hslash : step (.inside .plain '"' pre) '\\' = some (.escape .plain '"' pre, []) := rfl
  apply Reads.cons hslash
  apply Reads.single
  simp only [step, hnul, if_false, stepEscape, hescape, Option.map_some]
  rfl

/- The first quote behind such a text ends the literal. -/
theorem reads_literal (h : Denotes body value) (hhead : body.head? ≠ some '"') :
    Reads step (.opened .plain '"') (body ++ ['"', ')']) (.code [])
      [.literal '"' value, .char ')'] := by
  cases body with
  | nil =>
    have hnil := Option.some.inj (h [])
    simp only [Prod.mk.injEq, Mode.inside.injEq, true_and, and_true, List.append_nil] at hnil
    rw [List.reverse_eq_nil_iff.mp hnil.symm]
    rfl
  | cons c cs =>
    have hc : c ≠ '"' := fun hc => hhead (by rw [List.head?_cons, hc])
    have hopened : step (.opened .plain '"') c = step (.inside .plain '"' []) c := by
      simp only [step, hc, if_false]
    have hinside : Reads step (.opened .plain '"') (c :: cs)
        (.inside .plain '"' (value.reverse ++ [])) [] := by
      rw [Reads, run, hopened]
      exact h []
    have hclose : step (.inside .plain '"' (value.reverse ++ [])) '"' =
        some (.code [], [.literal '"' value.reverse.reverse]) := by
      rw [List.append_nil]
      rfl
    rw [List.reverse_reverse] at hclose
    exact hinside.append (Reads.cons hclose (Reads.single rfl))

end IdaHeadless.Python
