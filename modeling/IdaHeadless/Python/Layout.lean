import IdaHeadless.Python.Lexer

/-!
# The lines and blocks of Python source

A logical line ends at a line feed outside of brackets, lines that are blank but for a comment do
not count. Where a line is indented further than the one before it, that one has to end in a colon,
and where it is indented less, a block around it begins at the same column. A tab goes to the next
multiple of eight; that it may have another width is checked by counting it as one blank, too.
-/

namespace IdaHeadless.Python

open Transducer

/-! ### Logical lines -/

/-- A line with the width of its indentation, for tabs of eight columns and of one. -/
structure Line where
  column : ℕ
  alternate : ℕ
  text : List Piece
  deriving DecidableEq

/-- In front of a line, or in one: its pieces, the last one first, and the brackets that are to be
closed. -/
inductive LineMode where
  | start (column alternate : ℕ)
  | body (line : Line) (closers : List Char)
  deriving DecidableEq

def closer : Char → Option Char
  | '(' => some ')'
  | '[' => some ']'
  | '{' => some '}'
  | _ => none

def isBlank : Piece → Bool
  | .char ' ' => true
  | .char '\t' => true
  | _ => false

def Line.push (line : Line) (p : Piece) : Line := { line with text := p :: line.text }

def Line.finish (line : Line) : Line :=
  { line with text := (line.text.dropWhile isBlank).reverse }

/- A line feed between brackets ends no line. A semicolon is refused, so that a line is one
statement. -/
def stepBody (line : Line) (closers : List Char) (p : Piece) : Option (LineMode × List Line) :=
  match p with
  | .char '\n' =>
    some (if closers = [] then (.start 0 0, [line.finish]) else (.body line closers, []))
  | .char c =>
    match closer c with
    | some d => some (.body (line.push p) (d :: closers), [])
    | none =>
      if c ∈ [')', ']', '}'] then
        if closers.head? = some c then some (.body (line.push p) closers.tail, []) else none
      else if c = ';' ∧ closers = [] then none
      else some (.body (line.push p) closers, [])
  | p => some (.body (line.push p) closers, [])

def stepLine (mode : LineMode) (p : Piece) : Option (LineMode × List Line) :=
  match mode with
  | .body line closers => stepBody line closers p
  | .start column alternate =>
    if p = .char ' ' then some (.start (column + 1) (alternate + 1), [])
    else if p = .char '\t' then some (.start (8 * (column / 8 + 1)) (alternate + 1), [])
    else if p = .char '\n' ∨ p = .char '\x0c' then some (.start 0 0, [])
    else stepBody ⟨column, alternate, []⟩ [] p

def lastLine : LineMode → Option (List Line)
  | .start _ _ => some []
  | .body line [] => some [line.finish]
  | .body _ (_ :: _) => none

def logicalLines (ps : List Piece) : Option (List Line) :=
  (run stepLine (.start 0 0) ps).bind fun (mode, ls) => (lastLine mode).map (ls ++ ·)

/-! ### Blocks -/

/-- A logical line with the number of blocks around it. -/
structure Statement where
  depth : ℕ
  text : List Piece
  deriving DecidableEq

/-- The columns of the blocks around a line, innermost first, and whether the line before begins a
block. -/
structure Blocks where
  columns : List (ℕ × ℕ)
  header : Bool
  deriving DecidableEq

def innermost (columns : List (ℕ × ℕ)) : ℕ × ℕ := columns.head?.getD (0, 0)

def beginsBlock (text : List Piece) : Bool := text.getLast? = some (.char ':')

def place (columns : List (ℕ × ℕ)) (line : Line) : Blocks × List Statement :=
  (⟨columns, beginsBlock line.text⟩, [⟨columns.length, line.text⟩])

def stepBlock (b : Blocks) (line : Line) : Option (Blocks × List Statement) :=
  let (column, alternate) := innermost b.columns
  if column < line.column then
    if b.header ∧ alternate < line.alternate then
      some (place ((line.column, line.alternate) :: b.columns) line)
    else none
  else if b.header then none
  else
    let columns := b.columns.dropWhile (line.column < ·.1)
    if innermost columns = (line.column, line.alternate) then some (place columns line) else none

def nest (ls : List Line) : Option (List Statement) :=
  (run stepBlock ⟨[], false⟩ ls).bind fun (b, ss) => if b.header then none else some ss

/-- The statements of a module, or nothing if its lines are not laid out as they have to be. -/
def statements (source : List Char) : Option (List Statement) :=
  ((lex source).bind logicalLines).bind nest

def topLevel (ss : List Statement) : List (List Piece) :=
  (ss.filter (·.depth = 0)).map Statement.text

/-! ### A module that begins with a part -/

variable {pre rest : List Char} {ps qs : List Piece} {ls : List Line} {mode : LineMode}

theorem lex_append (hpre : '\r' ∉ pre) (h : Reads step (.code []) pre (.code []) ps)
    (hlex : lex (pre ++ rest) = some qs) : ∃ qs', qs = ps ++ qs' := by
  rw [lex, newlines_append hpre, Option.bind_eq_some_iff] at hlex
  obtain ⟨⟨mode, out⟩, hrun, hout⟩ := hlex
  obtain ⟨qs', hqs, -⟩ := run_append_eq_some h hrun
  simp only [Option.ite_none_right_eq_some, Option.some.injEq] at hout
  exact ⟨qs', hout.2 ▸ hqs⟩

theorem logicalLines_append {ls' : List Line}
    (h : Reads stepLine (.start 0 0) ps mode ls)
    (hlines : logicalLines (ps ++ qs) = some ls') : ∃ rest, ls' = ls ++ rest := by
  rw [logicalLines, Option.bind_eq_some_iff] at hlines
  obtain ⟨⟨mode', out⟩, hrun, hout⟩ := hlines
  obtain ⟨out', hout', -⟩ := run_append_eq_some h hrun
  obtain ⟨last, -, hlast⟩ := Option.map_eq_some_iff.mp hout
  exact ⟨out' ++ last, by rw [← hlast, hout', List.append_assoc]⟩

/-- A line in the wrong place is not put right by what follows. -/
theorem statements_eq_none (hpre : '\r' ∉ pre) (h : Reads step (.code []) pre (.code []) ps)
    (hlines : Reads stepLine (.start 0 0) ps mode ls)
    (hnest : run stepBlock ⟨[], false⟩ ls = none) (rest : List Char) :
    statements (pre ++ rest) = none := by
  rw [statements]
  cases hlex : lex (pre ++ rest) with
  | none => rfl
  | some qs =>
    obtain ⟨qs', rfl⟩ := lex_append hpre h hlex
    cases hlogical : logicalLines (ps ++ qs') with
    | none => rw [Option.bind_some, hlogical, Option.bind_none]
    | some ls' =>
      obtain ⟨ls'', rfl⟩ := logicalLines_append hlines hlogical
      rw [Option.bind_some, hlogical, Option.bind_some, nest, run_append_none hnest,
        Option.bind_none]

/-! ### Parts of a module -/

/-- From whole lines to whole lines, with these statements at the top level. -/
def Lays (b : Blocks) (ps : List Piece) (b' : Blocks) (tops : List (List Piece)) : Prop :=
  ∃ ls ss, Reads stepLine (.start 0 0) ps (.start 0 0) ls ∧ Reads stepBlock b ls b' ss ∧
    topLevel ss = tops

variable {b b' b'' : Blocks} {tops tops' : List (List Piece)} {source : List Char}
  {columns : List (ℕ × ℕ)}

theorem Lays.nil : Lays b [] b [] := ⟨[], [], Reads.nil, Reads.nil, rfl⟩

theorem Lays.blank (b : Blocks) : Lays b [.char '\n'] b [] :=
  ⟨[], [], Reads.single rfl, Reads.nil, rfl⟩

theorem Lays.append (h : Lays b ps b' tops) (h' : Lays b' qs b'' tops') :
    Lays b (ps ++ qs) b'' (tops ++ tops') := by
  obtain ⟨ls, ss, hlines, hblocks, htops⟩ := h
  obtain ⟨ls', ss', hlines', hblocks', htops'⟩ := h'
  refine ⟨ls ++ ls', ss ++ ss', hlines.append hlines', hblocks.append hblocks', ?_⟩
  rw [topLevel, List.filter_append, List.map_append, ← topLevel, ← topLevel, htops, htops']

theorem statements_of_lays (hlex : lex source = some ps)
    (h : Lays ⟨[], false⟩ ps ⟨columns, false⟩ tops) :
    ∃ ss, statements source = some ss ∧ topLevel ss = tops := by
  obtain ⟨ls, ss, hlines, hblocks, htops⟩ := h
  rw [Reads] at hlines hblocks
  refine ⟨ss, ?_, htops⟩
  rw [statements, hlex, Option.bind_some, logicalLines, hlines]
  simp only [Option.bind_some, lastLine, Option.map_some, List.append_nil, nest, hblocks,
    if_false, Bool.false_eq_true]

/-- The layout of whole lines, to be computed. -/
def layout (b : Blocks) (ps : List Piece) : Option (Blocks × List (List Piece)) :=
  match run stepLine (.start 0 0) ps with
  | some (.start 0 0, ls) => (run stepBlock b ls).map fun (b', ss) => (b', topLevel ss)
  | _ => none

theorem lays_of_layout (h : layout b ps = some (b', tops)) : Lays b ps b' tops := by
  unfold layout at h
  split at h
  · rename_i ls hlines
    obtain ⟨⟨c, ss⟩, hblocks, heq⟩ := Option.map_eq_some_iff.mp h
    cases heq
    exact ⟨ls, ss, hlines, hblocks, rfl⟩
  · cases h

/- A line at the first column ends all blocks. -/
theorem stepBlock_first {text : List Piece} (hheader : b.header = false)
    (hcolumns : ∀ c ∈ b.columns, 0 < c.1) :
    stepBlock b ⟨0, 0, text⟩ = some (place [] ⟨0, 0, text⟩) := by
  have hdrop : b.columns.dropWhile (fun c => decide (0 < c.1)) = [] := by
    rw [List.dropWhile_eq_nil_iff]
    simpa using hcolumns
  simp only [stepBlock, Nat.not_lt_zero, if_false, hheader, Bool.false_eq_true, hdrop]
  rfl

theorem lays_line {line : List Piece} (hheader : b.header = false)
    (hcolumns : ∀ c ∈ b.columns, 0 < c.1) (hcolon : beginsBlock line = false)
    (hline : Reads stepLine (.start 0 0) ps (.start 0 0) [⟨0, 0, line⟩]) :
    Lays b ps ⟨[], false⟩ [line] := by
  have hstep : stepBlock b ⟨0, 0, line⟩ = some (place [] ⟨0, 0, line⟩) :=
    stepBlock_first hheader hcolumns
  rw [place, hcolon] at hstep
  exact ⟨_, _, hline, Reads.single hstep, rfl⟩

theorem stepBody_word {c : Char} (h : isWordChar c = true) (line : Line) (closers : List Char) :
    stepBody line closers (.char c) = some (.body (line.push (.char c)) closers, []) := by
  have hopen : closer c = none := by
    unfold closer
    split
    · exact absurd rfl (word_ne h rfl)
    · exact absurd rfl (word_ne h rfl)
    · exact absurd rfl (word_ne h rfl)
    · rfl
  have hclose : c ∉ [')', ']', '}'] := by
    simp only [List.mem_cons, List.not_mem_nil, or_false, not_or]
    exact ⟨word_ne h rfl, word_ne h rfl, word_ne h rfl⟩
  have hline : c ≠ '\n' := word_ne h rfl
  have hsemicolon : ¬ (c = ';' ∧ closers = []) := fun hc => word_ne h rfl hc.1
  unfold stepBody
  split
  · rename_i hc
    exact absurd (Piece.char.inj hc) hline
  · rename_i d hd
    rw [← Piece.char.inj hd, hopen]
    simp only [if_neg hclose, if_neg hsemicolon]
  · rename_i hchar
    exact absurd rfl (hchar c)

/- A word goes into the line it stands in. -/
theorem body_word {cs : List Char} (h : ∀ c ∈ cs, isWordChar c = true) (column alternate : ℕ)
    (text : List Piece) (closers : List Char) :
    Reads stepLine (.body ⟨column, alternate, text⟩ closers) (cs.map Piece.char)
      (.body ⟨column, alternate, (cs.map Piece.char).reverse ++ text⟩ closers) [] := by
  induction cs generalizing text with
  | nil => exact Reads.nil
  | cons c cs ih =>
    rw [List.forall_mem_cons] at h
    have hstep : stepLine (.body ⟨column, alternate, text⟩ closers) (.char c) =
        some (.body ⟨column, alternate, .char c :: text⟩ closers, []) :=
      stepBody_word h.1 ⟨column, alternate, text⟩ closers
    have hrest := ih h.2 (.char c :: text)
    rw [List.map_cons, List.reverse_cons, List.append_assoc, List.singleton_append]
    exact Reads.cons hstep hrest

/- A call on a line of its own, with an argument that is read inside of its parenthesis. -/
theorem lays_argument {name arg : List Piece} (hheader : b.header = false)
    (hcolumns : ∀ c ∈ b.columns, 0 < c.1)
    (hname : Reads stepLine (.start 0 0) name (.body ⟨0, 0, name.reverse⟩ [')']) [])
    (harg : Reads stepLine (.body ⟨0, 0, name.reverse⟩ [')']) arg
      (.body ⟨0, 0, arg.reverse ++ name.reverse⟩ [')']) []) :
    Lays b (name ++ (arg ++ [Piece.char ')', Piece.char '\n'])) ⟨[], false⟩
      [name ++ (arg ++ [Piece.char ')'])] := by
  apply lays_line hheader hcolumns
  · rw [beginsBlock, ← List.append_assoc, List.getLast?_append]
    rfl
  · have hend : Reads stepLine (.body ⟨0, 0, arg.reverse ++ name.reverse⟩ [')'])
        [.char ')', .char '\n'] (.start 0 0)
        [⟨0, 0, (.char ')' :: (arg.reverse ++ name.reverse)).reverse⟩] := rfl
    rw [List.reverse_cons, List.reverse_append, List.reverse_reverse, List.reverse_reverse,
      List.append_assoc] at hend
    exact hname.append (harg.append hend)

theorem lays_word {name : List Piece} {cs : List Char} (h : ∀ c ∈ cs, isWordChar c = true)
    (hheader : b.header = false) (hcolumns : ∀ c ∈ b.columns, 0 < c.1)
    (hname : Reads stepLine (.start 0 0) name (.body ⟨0, 0, name.reverse⟩ [')']) []) :
    Lays b (name ++ (cs.map Piece.char ++ [Piece.char ')', Piece.char '\n'])) ⟨[], false⟩
      [name ++ (cs.map Piece.char ++ [Piece.char ')'])] :=
  lays_argument hheader hcolumns hname (body_word h 0 0 name.reverse [')'])

theorem lays_call {name : List Piece} (quote : Char) (value : List Char)
    (hheader : b.header = false) (hcolumns : ∀ c ∈ b.columns, 0 < c.1)
    (hname : Reads stepLine (.start 0 0) name (.body ⟨0, 0, name.reverse⟩ [')']) []) :
    Lays b (name ++ [Piece.literal quote value, Piece.char ')', Piece.char '\n']) ⟨[], false⟩
      [name ++ [Piece.literal quote value, Piece.char ')']] :=
  lays_argument hheader hcolumns hname (Reads.single rfl)

end IdaHeadless.Python
