import IdaHeadless.Text

/-!
# The lines of a text

What `trim` leaves of a text does not depend on the white space around it, and if it is one line
then it is what `trim` leaves of some line of the text.
-/

namespace IdaHeadless.Text

variable {pre post body line cs ds w : List Char} {c : Char}

/-! ### White space at the ends -/

theorem trim_append_left (hpre : ∀ c ∈ pre, isWhitespace c = true) (cs : List Char) :
    trim (pre ++ cs) = trim cs := by
  rw [trim, List.dropWhile_append_of_pos hpre, trim]

theorem trim_append_right (hpost : ∀ c ∈ post, isWhitespace c = true) (cs : List Char) :
    trim (cs ++ post) = trim cs := by
  rw [trim, trim, List.dropWhile_append]
  split
  · rename_i hempty
    have hpost' : post.dropWhile isWhitespace = [] := List.dropWhile_eq_nil_iff.mpr hpost
    rw [hpost', List.isEmpty_iff.mp hempty]
  · have hback : ∀ c ∈ post.reverse, isWhitespace c = true := by
      intro c hc
      exact hpost c (List.mem_reverse.mp hc)
    rw [List.rdropWhile, List.reverse_append, List.dropWhile_append_of_pos hback, List.rdropWhile]

theorem trim_cons (hc : isWhitespace c = true) (cs : List Char) : trim (c :: cs) = trim cs :=
  trim_append_left (List.forall_mem_singleton.mpr hc) cs

theorem trim_concat (hc : isWhitespace c = true) (cs : List Char) :
    trim (cs ++ [c]) = trim cs := trim_append_right (List.forall_mem_singleton.mpr hc) cs

/- A text is what `trim` leaves of it between white space. -/
theorem trim_split (cs : List Char) :
    ∃ pre post, cs = pre ++ trim cs ++ post ∧ (∀ c ∈ pre, isWhitespace c = true) ∧
      ∀ c ∈ post, isWhitespace c = true := by
  refine ⟨cs.takeWhile isWhitespace, (cs.dropWhile isWhitespace).rtakeWhile isWhitespace,
    ?_, ?_, ?_⟩
  · rw [trim, List.append_assoc, List.rdropWhile_append_rtakeWhile,
      List.takeWhile_append_dropWhile]
  · intro c hc
    exact List.mem_takeWhile_imp hc
  · intro c hc
    exact List.mem_rtakeWhile_imp hc

theorem trim_trim (cs : List Char) : trim (trim cs) = trim cs := by
  obtain ⟨pre, post, hsplit, hpre, hpost⟩ := trim_split cs
  have htrim : trim (pre ++ trim cs ++ post) = trim (trim cs) := by
    rw [trim_append_right hpost, trim_append_left hpre]
  rw [← htrim, ← hsplit]

theorem mem_of_mem_trim (hc : c ∈ trim cs) : c ∈ cs := by
  obtain ⟨pre, post, hsplit, -, -⟩ := trim_split cs
  rw [hsplit]
  exact List.mem_append_left post (List.mem_append_right pre hc)

theorem trim_nil : trim [] = [] := rfl

/- A trimmed text begins with the first character that is no white space. -/
theorem head_trim (cs : List Char) : (trim cs).head? = cs.find? fun c => !isWhitespace c := by
  induction cs with
  | nil => rfl
  | cons c cs ih =>
    cases hc : isWhitespace c with
    | true =>
      rw [trim_cons hc, ih, List.find?_cons_of_neg (by simp [hc])]
    | false =>
      rw [List.find?_cons_of_pos (by simp [hc])]
      obtain ⟨pre, post, hsplit, hpre, hpost⟩ := trim_split (c :: cs)
      have hmem : c ∈ pre ++ trim (c :: cs) ++ post := hsplit ▸ List.mem_cons_self
      cases pre with
      | cons d pre =>
        rw [List.cons_append, List.cons_append, List.cons.injEq] at hsplit
        rw [hsplit.1, hpre d List.mem_cons_self] at hc
        cases hc
      | nil =>
        cases hw : trim (c :: cs) with
        | nil =>
          rw [hw, List.nil_append, List.nil_append] at hmem
          rw [hpost c hmem] at hc
          cases hc
        | cons d w =>
          rw [hw, List.nil_append, List.cons_append, List.cons.injEq] at hsplit
          rw [List.head?_cons, hsplit.1]

theorem head_trim_append (hne : trim cs ≠ []) (ds : List Char) :
    (trim (cs ++ ds)).head? = (trim cs).head? := by
  obtain ⟨c, w, hw⟩ := List.exists_cons_of_ne_nil hne
  have hfind : cs.find? (fun c => !isWhitespace c) = some c := by
    rw [← head_trim, hw, List.head?_cons]
  rw [head_trim, head_trim, List.find?_append, hfind, Option.some_or]

/-! ### Pieces between commas -/

section Pieces

variable {sep : Char}

theorem splitOn_append_left (hsep : isWhitespace sep = false)
    (hpre : ∀ c ∈ pre, isWhitespace c = true) (cs : List Char) :
    ((pre ++ cs).splitOn sep).map trim = (cs.splitOn sep).map trim := by
  induction pre with
  | nil => rfl
  | cons c pre ih =>
    have hc : isWhitespace c = true := hpre c List.mem_cons_self
    have hne : (c == sep) = false := by
      rw [beq_eq_false_iff_ne]
      intro he
      rw [he, hsep] at hc
      cases hc
    obtain ⟨w, ws, hsplit⟩ := List.exists_cons_of_ne_nil (List.splitOn_ne_nil sep (pre ++ cs))
    have hrest := ih fun d hd => hpre d (List.mem_cons_of_mem c hd)
    rw [List.cons_append, List.splitOn_cons_eq_if_modifyHead, hne, if_neg Bool.false_ne_true,
      hsplit, List.modifyHead_cons, List.map_cons, trim_cons hc, ← List.map_cons, ← hsplit, hrest]

/- What stands behind the last piece is a part of it. -/
theorem splitOn_append_last (hpost : sep ∉ post) (cs : List Char) :
    ∃ front last, cs.splitOn sep = front ++ [last] ∧
      (cs ++ post).splitOn sep = front ++ [last ++ post] := by
  induction cs with
  | nil => exact ⟨[], [], List.splitOn_nil sep, List.splitOn_eq_singleton hpost⟩
  | cons c cs ih =>
    obtain ⟨front, last, hcs, happend⟩ := ih
    rw [List.cons_append, List.splitOn_cons_eq_if_modifyHead, List.splitOn_cons_eq_if_modifyHead,
      hcs, happend]
    split
    · exact ⟨[] :: front, last, rfl, rfl⟩
    · cases front with
      | nil => exact ⟨[], c :: last, rfl, rfl⟩
      | cons w front => exact ⟨(c :: w) :: front, last, rfl, rfl⟩

theorem splitOn_append_right (hsep : isWhitespace sep = false)
    (hpost : ∀ c ∈ post, isWhitespace c = true) (cs : List Char) :
    ((cs ++ post).splitOn sep).map trim = (cs.splitOn sep).map trim := by
  have hnot : sep ∉ post := by
    intro hmem
    rw [hpost sep hmem] at hsep
    cases hsep
  obtain ⟨front, last, hcs, happend⟩ := splitOn_append_last hnot cs
  rw [hcs, happend, List.map_append, List.map_append, List.map_singleton, List.map_singleton,
    trim_append_right hpost]

/-- Trimmed, the pieces of a text are those of what `trim` leaves of it. -/
theorem splitOn_trim (hsep : isWhitespace sep = false) (cs : List Char) :
    ((trim cs).splitOn sep).map trim = (cs.splitOn sep).map trim := by
  obtain ⟨pre, post, hsplit, hpre, hpost⟩ := trim_split cs
  conv => rhs; rw [hsplit]
  rw [splitOn_append_right hsep hpost, splitOn_append_left hsep hpre]

end Pieces

/-! ### Lines -/

theorem trim_dropReturn (line : List Char) :
    trim (dropReturn line).reverse = trim line.reverse := by
  unfold dropReturn
  split
  · rename_i rest
    have hreturn : isWhitespace '\r' = true := by decide
    rw [List.reverse_cons, trim_concat hreturn]
  · rfl

theorem linesFrom_append (line : List Char) (hcs : '\n' ∉ cs) (ds : List Char) :
    linesFrom line (cs ++ ds) = linesFrom (cs.reverse ++ line) ds := by
  induction cs generalizing line with
  | nil => rfl
  | cons c cs ih =>
    rw [List.mem_cons, not_or] at hcs
    rw [List.cons_append, linesFrom, if_neg (Ne.symm hcs.1), ih (c :: line) hcs.2,
      List.reverse_cons, List.append_assoc, List.singleton_append]

theorem mem_linesFrom {begun : List Char} (hline : line ∈ linesFrom begun cs)
    (hbegun : '\n' ∉ begun) :
    '\n' ∉ line ∧ ∀ c ∈ line, c ∈ begun ∨ c ∈ cs := by
  induction cs generalizing begun with
  | nil =>
    rw [linesFrom] at hline
    split at hline
    · cases hline
    · rw [List.mem_singleton.mp hline]
      exact ⟨fun h => hbegun (List.mem_reverse.mp h), fun c hc => .inl (List.mem_reverse.mp hc)⟩
  | cons c cs ih =>
    rw [linesFrom] at hline
    split at hline
    · rcases List.mem_cons.mp hline with rfl | hline
      · have hsub : ∀ d ∈ (dropReturn begun).reverse, d ∈ begun := by
          intro d hd
          rw [List.mem_reverse] at hd
          unfold dropReturn at hd
          split at hd
          · exact List.mem_cons_of_mem _ hd
          · exact hd
        exact ⟨fun h => hbegun (hsub _ h), fun d hd => .inl (hsub d hd)⟩
      · obtain ⟨hnl, hmem⟩ := ih hline (List.not_mem_nil)
        refine ⟨hnl, fun d hd => .inr (List.mem_cons_of_mem c ?_)⟩
        exact (hmem d hd).resolve_left List.not_mem_nil
    · rename_i hc
      have hbegun' : '\n' ∉ c :: begun := by
        rw [List.mem_cons, not_or]
        exact ⟨fun h => hc h.symm, hbegun⟩
      obtain ⟨hnl, hmem⟩ := ih hline hbegun'
      refine ⟨hnl, fun d hd => ?_⟩
      rcases hmem d hd with h | h
      · rcases List.mem_cons.mp h with rfl | h
        · exact .inr List.mem_cons_self
        · exact .inl h
      · exact .inr (List.mem_cons_of_mem c h)

theorem newline_not_mem_lines (hline : line ∈ lines cs) : '\n' ∉ line :=
  (mem_linesFrom hline List.not_mem_nil).1

/- The lines behind a line feed are lines of their own. -/
theorem linesFrom_newline (line cs ds : List Char) :
    linesFrom line (cs ++ '\n' :: ds) = linesFrom line (cs ++ ['\n']) ++ lines ds := by
  induction cs generalizing line with
  | nil => simp [linesFrom, lines]
  | cons c cs ih =>
    rw [List.cons_append, List.cons_append, linesFrom, linesFrom]
    split
    · rw [ih [], List.cons_append]
    · rw [ih (c :: line)]

theorem lines_newline (cs ds : List Char) :
    lines (cs ++ '\n' :: ds) = lines (cs ++ ['\n']) ++ lines ds := linesFrom_newline [] cs ds

/- A line feed that ends a line which has begun changes no line, but for a carriage return. -/
theorem linesFrom_end (line cs : List Char) (hbegun : line ≠ [] ∨ cs ≠ [])
    (hend : cs.getLast? ≠ some '\n') :
    (linesFrom line (cs ++ ['\n'])).map trim = (linesFrom line cs).map trim := by
  induction cs generalizing line with
  | nil =>
    have hline : line ≠ [] := hbegun.resolve_right (not_not.mpr rfl)
    simp only [List.nil_append, linesFrom, if_true, if_neg hline, List.map_cons, List.map_nil,
      trim_dropReturn]
  | cons c cs ih =>
    rw [List.cons_append, linesFrom, linesFrom]
    by_cases hc : c = '\n'
    · have hcs : cs ≠ [] := by
        intro hnil
        rw [hnil, hc] at hend
        exact hend rfl
      have hend' : cs.getLast? ≠ some '\n' := by
        rwa [List.getLast?_cons_of_ne_nil hcs] at hend
      rw [if_pos hc, if_pos hc, List.map_cons, List.map_cons, ih [] (.inr hcs) hend']
    · have hend' : cs.getLast? ≠ some '\n' := by
        intro hlast
        have hcs : cs ≠ [] := by
          intro hnil
          rw [hnil] at hlast
          cases hlast
        exact hend (by rw [List.getLast?_cons_of_ne_nil hcs, hlast])
      rw [if_neg hc, if_neg hc, ih (c :: line) (.inl (List.cons_ne_nil c line)) hend']

/- White space behind a line that has begun leaves it there. -/
theorem exists_line_of_begun (hpost : ∀ c ∈ post, isWhitespace c = true)
    (hw : w ≠ []) (hline : trim line.reverse = w) : ∃ l ∈ linesFrom line post, trim l = w := by
  induction post generalizing line with
  | nil =>
    have hne : line ≠ [] := by
      intro hnil
      rw [hnil, List.reverse_nil, trim_nil] at hline
      exact hw hline.symm
    rw [linesFrom, if_neg hne]
    exact ⟨_, List.mem_singleton_self _, hline⟩
  | cons c post ih =>
    rw [linesFrom]
    split
    · exact ⟨_, List.mem_cons_self, (trim_dropReturn line).trans hline⟩
    · apply ih fun d hd => hpost d (List.mem_cons_of_mem c hd)
      rw [List.reverse_cons, trim_concat (hpost c List.mem_cons_self), hline]

theorem exists_line_from (hline : ∀ c ∈ line, isWhitespace c = true)
    (hpre : ∀ c ∈ pre, isWhitespace c = true) (hpost : ∀ c ∈ post, isWhitespace c = true)
    (hbody : '\n' ∉ body) (hne : trim body ≠ []) :
    ∃ l ∈ linesFrom line (pre ++ body ++ post), trim l = trim body := by
  induction pre generalizing line with
  | nil =>
    rw [List.nil_append, linesFrom_append line hbody]
    apply exists_line_of_begun hpost hne
    have hback : ∀ c ∈ line.reverse, isWhitespace c = true := by
      intro c hc
      exact hline c (List.mem_reverse.mp hc)
    rw [List.reverse_append, List.reverse_reverse, trim_append_left hback]
  | cons c pre ih =>
    have htail : ∀ d ∈ pre, isWhitespace d = true := fun d hd => hpre d (List.mem_cons_of_mem c hd)
    rw [List.cons_append, List.cons_append, linesFrom]
    split
    · obtain ⟨l, hl, htrim⟩ := ih (fun d hd => absurd hd List.not_mem_nil) htail
      exact ⟨l, List.mem_cons_of_mem _ hl, htrim⟩
    · apply ih _ htail
      intro d hd
      rcases List.mem_cons.mp hd with rfl | hd
      · exact hpre d List.mem_cons_self
      · exact hline d hd

/-- A text that is one line but for the white space around it has that line. -/
theorem exists_line (hne : trim cs ≠ []) (hone : '\n' ∉ trim cs) :
    ∃ l ∈ lines cs, trim l = trim cs := by
  obtain ⟨pre, post, hsplit, hpre, hpost⟩ := trim_split cs
  have hline := exists_line_from (fun c hc => absurd hc List.not_mem_nil) hpre hpost hone
    (by rwa [trim_trim])
  rwa [← hsplit, trim_trim] at hline

end IdaHeadless.Text
