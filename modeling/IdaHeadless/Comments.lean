import IdaHeadless.Lines
import IdaHeadless.ToolError

/-!
# Appending to a comment (handlers/annotations.rs)

`comment_append` puts a text behind the comment of a line or of a function. With `dedupe` a text
that stands there as a line is skipped, white space at the ends aside.
-/

namespace IdaHeadless.Comments

open Text

/-- What is used of idalib: the start of the function at an address, and comments that are read
back as they were set. -/
structure Idalib (σ : Type) where
  functionAt : σ → ℕ → Option ℕ
  getCmt : σ → ℕ → Option (List Char)
  getFuncCmt : σ → ℕ → Option (List Char)
  setCmt : σ → ℕ → List Char → Except ToolError σ
  setFuncCmt : σ → ℕ → List Char → Except ToolError σ
  getCmt_set : ∀ db addr text db', setCmt db addr text = .ok db' →
    (getCmt db' addr).getD [] = text
  getFuncCmt_set : ∀ db start text db', setFuncCmt db start text = .ok db' →
    (getFuncCmt db' start).getD [] = text
  functionAt_set : ∀ db addr text db', setCmt db addr text = .ok db' →
    functionAt db' = functionAt db
  functionAt_setFunc : ∀ db start text db', setFuncCmt db start text = .ok db' →
    functionAt db' = functionAt db

inductive Outcome where
  | skipped
  | appended
  deriving DecidableEq

structure AppendResult where
  address : String
  scope : String
  outcome : Outcome
  deriving DecidableEq

variable {σ : Type} {lib : Idalib σ} {db db' : σ} {addr : ℕ} {current comment : List Char}
  {scope : String} {out : AppendResult}

def useFunction (function : Option ℕ) (addr : ℕ) (scope : String) : Except ToolError Bool :=
  if scope = "func" then .ok true
  else if scope = "line" then .ok false
  else if scope = "auto" then .ok (function.any (· = addr))
  else .error (.invalidParams ("unsupported comment scope: " ++ scope))

/-- The comment is the function's or the line's, and stands at this address. -/
def appendTarget (lib : Idalib σ) (db : σ) (addr : ℕ) (scope : String) :
    Except ToolError (Bool × ℕ) := do
  let function := lib.functionAt db addr
  if ← useFunction function addr scope then
    let target ← function.elim (.error (.functionNotFound addr)) .ok
    .ok (true, target)
  else .ok (false, addr)

def currentComment (lib : Idalib σ) (db : σ) (target : Bool × ℕ) : List Char :=
  (if target.1 then lib.getFuncCmt db target.2 else lib.getCmt db target.2).getD []

def setComment (lib : Idalib σ) (db : σ) (target : Bool × ℕ) (text : List Char) :
    Except ToolError σ :=
  if target.1 then lib.setFuncCmt db target.2 text else lib.setCmt db target.2 text

def isDuplicate (current comment : List Char) : Bool :=
  trim comment ≠ [] && (lines current).any fun line => trim line = trim comment

def combined (current comment : List Char) : List Char :=
  if current = [] ∨ comment = [] ∨ current.getLast? = some '\n' then current ++ comment
  else current ++ '\n' :: comment

def handleAppendComment (lib : Idalib σ) (idb : Option σ) (addr : ℕ) (comment : List Char)
    (scope : String) (dedupe : Bool) : Except ToolError (σ × AppendResult) := do
  let db ← idb.elim (.error .noDatabaseOpen) .ok
  let target ← appendTarget lib db addr scope
  let current := currentComment lib db target
  let shown := if target.1 then "func" else "line"
  if dedupe && isDuplicate current comment then .ok (db, ⟨hexAddr addr, shown, .skipped⟩)
  else
    let db ← setComment lib db target (combined current comment)
    .ok (db, ⟨hexAddr addr, shown, .appended⟩)

/-! ### The text that is stored -/

/- The text in front ends with a line feed, or the text behind is put on a line of its own. -/
theorem combined_cases (hcurrent : current ≠ []) (hcomment : comment ≠ []) :
    ∃ front, combined current comment = front ++ '\n' :: comment ∧
      (current = front ++ ['\n'] ∨ current = front ∧ current.getLast? ≠ some '\n') := by
  by_cases hend : current.getLast? = some '\n'
  · obtain ⟨front, hfront⟩ := List.getLast?_eq_some_iff.mp hend
    refine ⟨front, ?_, .inl hfront⟩
    rw [combined, if_pos (.inr (.inr hend)), hfront, List.append_assoc, List.singleton_append]
  · have hnot : ¬ (current = [] ∨ comment = [] ∨ current.getLast? = some '\n') := by
      simp [hcurrent, hcomment, hend]
    exact ⟨current, by rw [combined, if_neg hnot], .inr ⟨rfl, hend⟩⟩

theorem prefix_combined (current comment : List Char) : current <+: combined current comment := by
  rw [combined]
  split
  · exact List.prefix_append _ _
  · exact List.prefix_append _ _

/- No line is lost. -/
theorem lines_prefix_combined (current comment : List Char) :
    (lines current).map trim <+: (lines (combined current comment)).map trim := by
  by_cases hcurrent : current = []
  · rw [hcurrent]
    exact List.nil_prefix
  by_cases hcomment : comment = []
  · rw [combined, if_pos (.inr (.inl hcomment)), hcomment, List.append_nil]
  obtain ⟨front, hcombined, hfront⟩ := combined_cases hcurrent hcomment
  rw [hcombined, lines_newline, List.map_append]
  rcases hfront with rfl | ⟨rfl, hend⟩
  · exact List.prefix_append _ _
  · rw [lines, lines, linesFrom_end [] current (.inr hcurrent) hend]
    exact List.prefix_append _ _

theorem lines_comment_subset (current comment : List Char) :
    lines comment ⊆ lines (combined current comment) := by
  by_cases hcomment : comment = []
  · rw [hcomment]
    exact List.nil_subset _
  by_cases hcurrent : current = []
  · rw [combined, if_pos (.inl hcurrent), hcurrent, List.nil_append]
    exact List.Subset.refl _
  obtain ⟨front, hcombined, -⟩ := combined_cases hcurrent hcomment
  rw [hcombined, lines_newline]
  exact List.subset_append_right _ _

/- A text of one line is found again once it has been appended. -/
theorem isDuplicate_combined (hne : trim comment ≠ []) (hone : '\n' ∉ trim comment)
    (current : List Char) : isDuplicate (combined current comment) comment = true := by
  obtain ⟨line, hline, htrim⟩ := exists_line hne hone
  rw [isDuplicate, Bool.and_eq_true, decide_eq_true_eq, List.any_eq_true]
  exact ⟨hne, line, lines_comment_subset current comment hline, by simpa using htrim⟩

theorem isDuplicate_blank (hblank : trim comment = []) (current : List Char) :
    isDuplicate current comment = false := by
  simp [isDuplicate, hblank]

/- No line of a comment has a line feed in it. -/
theorem isDuplicate_lines (hmany : '\n' ∈ trim comment) (current : List Char) :
    isDuplicate current comment = false := by
  rw [isDuplicate, Bool.and_eq_false_iff, List.any_eq_false]
  refine .inr fun line hline heq => ?_
  rw [decide_eq_true_eq] at heq
  rw [← heq] at hmany
  exact newline_not_mem_lines hline (mem_of_mem_trim hmany)

/-! ### One call, and the next -/

theorem appendTarget_set {target : Bool × ℕ} {text : List Char}
    (h : setComment lib db target text = .ok db') :
    appendTarget lib db' addr scope = appendTarget lib db addr scope := by
  have hfunction : lib.functionAt db' = lib.functionAt db := by
    rw [setComment] at h
    split at h
    · exact lib.functionAt_setFunc _ _ _ _ h
    · exact lib.functionAt_set _ _ _ _ h
  rw [appendTarget, appendTarget, hfunction]

theorem currentComment_set {target : Bool × ℕ} {text : List Char}
    (h : setComment lib db target text = .ok db') : currentComment lib db' target = text := by
  rw [setComment] at h
  rw [currentComment]
  split at h
  · rename_i hfunc
    rw [if_pos hfunc]
    exact lib.getFuncCmt_set _ _ _ _ h
  · rename_i hline
    rw [if_neg hline]
    exact lib.getCmt_set _ _ _ _ h

/- A call that answers has skipped a duplicate or stored the combined text. -/
theorem appendComment_cases
    (h : handleAppendComment lib (some db) addr comment scope true = .ok (db', out)) :
    ∃ target, appendTarget lib db addr scope = .ok target ∧
      ((isDuplicate (currentComment lib db target) comment = true ∧ db' = db ∧
          out = ⟨hexAddr addr, if target.1 then "func" else "line", .skipped⟩) ∨
        (isDuplicate (currentComment lib db target) comment = false ∧
          setComment lib db target (combined (currentComment lib db target) comment) = .ok db' ∧
          out = ⟨hexAddr addr, if target.1 then "func" else "line", .appended⟩)) := by
  simp only [handleAppendComment, Option.elim_some, bind, Except.bind, Bool.true_and] at h
  cases htarget : appendTarget lib db addr scope with
  | error e => simp [htarget] at h
  | ok target =>
    refine ⟨target, rfl, ?_⟩
    simp only [htarget] at h
    cases hdup : isDuplicate (currentComment lib db target) comment with
    | true =>
      simp only [hdup, if_true, Except.ok.injEq, Prod.mk.injEq] at h
      exact .inl ⟨rfl, h.1.symm, h.2.symm⟩
    | false =>
      cases hset : setComment lib db target (combined (currentComment lib db target) comment) with
      | error e => simp [hdup, hset] at h
      | ok db'' =>
        simp only [hdup, hset, Bool.false_eq_true, if_false, Except.ok.injEq, Prod.mk.injEq] at h
        obtain ⟨rfl, rfl⟩ := h
        exact .inr ⟨rfl, rfl, rfl⟩

theorem appendComment_duplicate {target : Bool × ℕ}
    (htarget : appendTarget lib db addr scope = .ok target)
    (hdup : isDuplicate (currentComment lib db target) comment = true) :
    handleAppendComment lib (some db) addr comment scope true =
      .ok (db, ⟨hexAddr addr, if target.1 then "func" else "line", .skipped⟩) := by
  simp only [handleAppendComment, Option.elim_some, bind, Except.bind, htarget, hdup,
    Bool.true_and, if_true]

/- The text before the call stands in front of what there is now, and so do its lines. -/
structure Keeps (lib : Idalib σ) (db db' : σ) (target : Bool × ℕ) : Prop where
  text : currentComment lib db target <+: currentComment lib db' target
  lines : (lines (currentComment lib db target)).map trim <+:
    (lines (currentComment lib db' target)).map trim

/- No line is lost, and the same call again finds its text there and changes nothing. -/
structure Idempotent (lib : Idalib σ) (db db' : σ) (target : Bool × ℕ) (addr : ℕ)
    (comment : List Char) (scope : String) (out : AppendResult) : Prop where
  kept : Keeps lib db db' target
  again : handleAppendComment lib (some db') addr comment scope true =
    .ok (db', { out with outcome := .skipped })

theorem keeps_of_set {target : Bool × ℕ}
    (h : setComment lib db target (combined (currentComment lib db target) comment) = .ok db') :
    Keeps lib db db' target := by
  refine ⟨?_, ?_⟩
  · rw [currentComment_set h]
    exact prefix_combined _ _
  · rw [currentComment_set h]
    exact lines_prefix_combined _ _

/-- An append that answers keeps every line. It is idempotent exactly if its text, trimmed, is
one line that is not empty: neither a blank text is taken for a duplicate nor one of several
lines. -/
theorem append_comment_twice (lib : Idalib σ) (db db' : σ) (addr : ℕ) (comment : List Char)
    (scope : String) (out : AppendResult)
    (h : handleAppendComment lib (some db) addr comment scope true = .ok (db', out)) :
    ∃ target, appendTarget lib db addr scope = .ok target ∧ Keeps lib db db' target ∧
      (Idempotent lib db db' target addr comment scope out ↔
        trim comment ≠ [] ∧ '\n' ∉ trim comment) := by
  obtain ⟨target, htarget, hcall⟩ := appendComment_cases h
  have hkeeps : Keeps lib db db' target := by
    rcases hcall with ⟨-, rfl, -⟩ | ⟨-, hset, -⟩
    · exact ⟨List.prefix_refl _, List.prefix_refl _⟩
    · exact keeps_of_set hset
  refine ⟨target, htarget, hkeeps, ?_, ?_⟩
  · intro hidem
    obtain ⟨target', -, ⟨hdup, -, -⟩ | ⟨-, -, hout⟩⟩ := appendComment_cases hidem.again
    · refine ⟨fun hblank => ?_, fun hmany => ?_⟩
      · rw [isDuplicate_blank hblank] at hdup
        cases hdup
      · rw [isDuplicate_lines hmany] at hdup
        cases hdup
    · cases congrArg AppendResult.outcome hout
  · rintro ⟨hne, hone⟩
    refine ⟨hkeeps, ?_⟩
    rcases hcall with ⟨hdup, rfl, rfl⟩ | ⟨-, hset, rfl⟩
    · exact appendComment_duplicate htarget hdup
    · have hdup := isDuplicate_combined hne hone (currentComment lib db target)
      rw [← currentComment_set hset] at hdup
      exact appendComment_duplicate ((appendTarget_set hset).trans htarget) hdup

/-- Comments by their address and no functions. -/
def lineComments : Idalib (ℕ → Option (List Char)) where
  functionAt _ _ := none
  getCmt db addr := db addr
  getFuncCmt _ _ := none
  setCmt db addr text := .ok (Function.update db addr (some text))
  setFuncCmt _ start _ := .error (.functionNotFound start)
  getCmt_set := by
    intro db addr text db' h
    cases h
    simp
  getFuncCmt_set := by
    intro db start text db' h
    cases h
  functionAt_set _ _ _ _ _ := rfl
  functionAt_setFunc _ _ _ _ _ := rfl

theorem append_comment_once :
    ∃ db', handleAppendComment lineComments (some fun _ => some "old".toList) 16 " new\n".toList
        "auto" true = .ok (db', ⟨"0x10", "line", .appended⟩) ∧
      db' 16 = some "old\n new\n".toList ∧
      handleAppendComment lineComments (some db') 16 " new\n".toList "auto" true =
        .ok (db', ⟨"0x10", "line", .skipped⟩) := by
  have hfirst : handleAppendComment lineComments (some fun _ => some "old".toList) 16
      " new\n".toList "auto" true = .ok (Function.update (fun _ => some "old".toList) 16
        (some "old\n new\n".toList), ⟨"0x10", "line", .appended⟩) := by rfl
  obtain ⟨target, -, -, hiff⟩ := append_comment_twice _ _ _ _ _ _ _ hfirst
  exact ⟨_, hfirst, Function.update_self .., (hiff.mpr (by decide)).again⟩

/- Both lines of the text are there, and the call puts them there again. -/
theorem append_lines_again :
    ∃ db', handleAppendComment lineComments (some fun _ => some "x\ny".toList) 16 "x\ny".toList
        "line" true = .ok (db', ⟨"0x10", "line", .appended⟩) ∧
      db' 16 = some "x\ny\nx\ny".toList ∧
      ∃ db'', handleAppendComment lineComments (some db') 16 "x\ny".toList "line" true =
          .ok (db'', ⟨"0x10", "line", .appended⟩) ∧
        db'' 16 = some "x\ny\nx\ny\nx\ny".toList := by
  refine ⟨Function.update (fun _ => some "x\ny".toList) 16 (some "x\ny\nx\ny".toList), ?_,
    Function.update_self .., Function.update (Function.update (fun _ => some "x\ny".toList) 16
      (some "x\ny\nx\ny".toList)) 16 (some "x\ny\nx\ny\nx\ny".toList), ?_,
    Function.update_self ..⟩
  · rfl
  · rfl

end IdaHeadless.Comments
