import IdaHeadless.Database.Identity
import IdaHeadless.Runs

/-!
# Cleanup after a failed open (ida/leftover.rs, supervisor/session.rs, server/tools/database.rs)

`SessionManager::open` and the worker's `open_idb` note which unpacked parts exist beside
the input, run the open, and if it fails remove the parts that were not there before.
The open takes long, and other opens, of this server or of another, go on meanwhile: the
file system below is shared by all of them.

What a path names is up to the file system (`resolve`): two spellings may be one file.
A snapshot is taken in one step; the files of a cleanup are removed one by one.
-/

namespace IdaHeadless.Leftover
open Paths Database

/-! ### Candidates -/

def id1 : List Char := ['i', 'd', '1']
def id2 : List Char := ['i', 'd', '2']
def nam : List Char := ['n', 'a', 'm']
def til : List Char := ['t', 'i', 'l']

def unpackedExtensions : List (List Char) := [id0, id1, id2, nam, til]

def packedDatabaseForInput (input : Path) : Path :=
  if hasIdaDatabaseExtension input then input else input ++ '.' :: i64

/- `seen.insert`, then `parts.push`. -/
def pushNew (parts : List Path) (path : Path) : List Path :=
  if parts.any (same · path) then parts else parts ++ [path]

def leftoverUnpackedParts (input : Path) : List Path :=
  (unpackedExtensions.map (setExtension (packedDatabaseForInput input)) ++
    unpackedExtensions.map fun ext => input ++ '.' :: ext).foldl pushNew []

/-! ### The shared file system -/

/- Who writes files: the open of an attempt, or any other program. -/
inductive Writer where
  | attempt (id : ℕ)
  | other (id : ℕ)
  deriving DecidableEq

structure Snapshot where
  input : Path
  preserve : List Path

/- An attempt to open `input`. `todo` is what the cleanup has still to remove; there is no
cleanup before the open has ended. `before` remembers the files at the snapshot, `found`
that `handle_open` has seen the input. -/
structure Attempt (Node : Type) where
  input : Path
  snapshots : List Snapshot
  before : Node → Option Writer
  found : Bool
  todo : Option (List Path)

/- The files, each with who wrote it last, and whose databases are open. -/
structure World (Node : Type) where
  files : Node → Option Writer
  opened : List Writer
  next : ℕ
  attempts : ℕ → Option (Attempt Node)

/- `idbOut` is there only in `open_idb`. -/
inductive Act (Node : Type) where
  | attempt (input : Path) (idbOut : Option Path)
  | inputFound (a : ℕ)
  | write (who : Writer) (nodes : List Node)
  | opened (who : Writer)
  | closed (who : Writer)
  | delete (node : Node)
  | succeed (a : ℕ)
  | fail (a : ℕ)
  | remove (a : ℕ)

section World
variable {Node : Type} [DecidableEq Node] (resolve : Path → Node)

def existingLeftoverParts (files : Node → Option Writer) (input : Path) : List Path :=
  (leftoverUnpackedParts input).filter fun path => (files (resolve path)).isSome

/- The calls of `remove_file` in `cleanup_leftover_parts`. -/
def cleanupLeftoverParts (snap : Snapshot) : List Path :=
  (leftoverUnpackedParts snap.input).filter fun path => !snap.preserve.any (same · path)

def Attempt.cleanup (att : Attempt Node) : List Path := att.snapshots.flatMap cleanupLeftoverParts

/- What the attempt may still remove. -/
def Attempt.targets (att : Attempt Node) : List Path := att.todo.getD att.cleanup

def beginAttempt (files : Node → Option Writer) (input : Path) (idbOut : Option Path) :
    Attempt Node where
  input := input
  snapshots := (input :: idbOut.toList).map fun p => ⟨p, existingLeftoverParts resolve files p⟩
  before := files
  found := false
  todo := none

def World.setAttempt (w : World Node) (a : ℕ) (att : Attempt Node) : World Node :=
  { w with attempts := Function.update w.attempts a (some att) }

/- The open of an attempt writes nothing before it has found its input. -/
def World.mayWrite (w : World Node) : Writer → Bool
  | .attempt a => (w.attempts a).any (·.found)
  | .other _ => true

def step (w : World Node) : Act Node → Option (World Node)
  | .attempt input idbOut =>
    some { w.setAttempt w.next (beginAttempt resolve w.files input idbOut) with next := w.next + 1 }
  | .inputFound a =>
    (w.attempts a).bind fun att =>
      if (w.files (resolve att.input)).isSome then some (w.setAttempt a { att with found := true })
      else none
  | .write who nodes =>
    if w.mayWrite who then
      some { w with files := fun node => if node ∈ nodes then some who else w.files node }
    else none
  | .opened who => if w.mayWrite who then some { w with opened := who :: w.opened } else none
  | .closed who => some { w with opened := w.opened.erase who }
  | .delete node => some { w with files := Function.update w.files node none }
  | .succeed a =>
    (w.attempts a).bind fun att =>
      if att.todo.isNone then some (w.setAttempt a { att with todo := some [] }) else none
  | .fail a =>
    (w.attempts a).bind fun att =>
      if att.todo.isNone then some (w.setAttempt a { att with todo := some att.cleanup }) else none
  | .remove a =>
    (w.attempts a).bind fun att =>
      match att.todo with
      | some (path :: rest) =>
        some { w.setAttempt a { att with todo := some rest } with
          files := Function.update w.files (resolve path) none }
      | _ => none

/- Some files, some databases open, and no attempt yet. -/
def start (files : Node → Option Writer) (opened : List Writer) : World Node :=
  ⟨files, opened, 0, fun _ => none⟩

end World

/-! ### What the candidates are -/

/- The text ends in a dot and the extension of an unpacked part, or of a packed file. -/
def IsPart (p : Path) : Prop := ∃ before, ∃ ext ∈ unpackedExtensions, p = before ++ '.' :: ext

theorem mem_foldl_pushNew {p : Path} {paths parts : List Path}
    (h : p ∈ paths.foldl pushNew parts) : p ∈ parts ∨ p ∈ paths := by
  induction paths generalizing parts with
  | nil => exact Or.inl h
  | cons q paths ih =>
    rcases ih h with hparts | hpaths
    · unfold pushNew at hparts
      split at hparts
      · exact Or.inl hparts
      · rcases List.mem_append.mp hparts with hold | hnew
        · exact Or.inl hold
        · rw [List.mem_singleton.mp hnew]
          exact Or.inr List.mem_cons_self
    · exact Or.inr (List.mem_cons_of_mem q hpaths)

theorem fileName_packedDatabaseForInput (input : Path) :
    fileName (packedDatabaseForInput input) ≠ none := by
  unfold packedDatabaseForInput
  split
  · rename_i hdb
    intro hnone
    rw [hasIdaDatabaseExtension, extension, hnone] at hdb
    cases hdb
  · obtain ⟨dir, name, rfl, hsep⟩ := exists_inDir input
    have hgenerated : inDir dir name ++ '.' :: i64 = inDir dir (name ++ '.' :: i64) :=
      idbPathForRawBinary_inDir
    rw [hgenerated, fileName_inDir (normal_append_i64 hsep)]
    exact Option.some_ne_none _

theorem leftoverUnpackedParts_part {p input : Path} (h : p ∈ leftoverUnpackedParts input) :
    IsPart p := by
  rcases mem_foldl_pushNew h with hnil | hmem
  · cases hnil
  · rcases List.mem_append.mp hmem with hset | happend
    · obtain ⟨ext, hext, rfl⟩ := List.mem_map.mp hset
      have hne : ext ≠ [] := by
        have hall : ∀ e ∈ unpackedExtensions, e ≠ [] := by decide
        exact hall ext hext
      obtain ⟨before, hbefore⟩ := setExtension_ends (fileName_packedDatabaseForInput input) hne
      exact ⟨before, ext, hext, hbefore⟩
    · obtain ⟨ext, hext, rfl⟩ := List.mem_map.mp happend
      exact ⟨input, ext, hext, rfl⟩

/-! ### Undisturbed attempts -/

section Undisturbed
variable {Node : Type} {resolve : Path → Node} {w w' : World Node}
  {act : Act Node} {a : ℕ} {att : Attempt Node} {p : Path} {who : Writer}

/- Nobody else writes a file that an attempt, from its snapshot to the end of its cleanup,
may remove: a candidate that was not there at its snapshot. And whoever gets an error from an
attempt does not leave its database open, and it does not come to be open during the cleanup. -/
def Undisturbed (resolve : Path → Node) (w : World Node) : Act Node → Prop
  | .write who nodes =>
    ∀ a < w.next, ∀ att ∈ w.attempts a, who ≠ .attempt a →
      ∀ p ∈ att.targets, resolve p ∉ nodes
  | .opened (.attempt a) => ∀ att ∈ w.attempts a, att.todo.getD [] = []
  | .fail a => .attempt a ∉ w.opened
  | _ => True

instance (resolve : Path → Node) [DecidableEq Node] (w : World Node) (act : Act Node) :
    Decidable (Undisturbed resolve w act) :=
  match act with
  | .write who nodes =>
    inferInstanceAs (Decidable (∀ a < w.next, ∀ att ∈ w.attempts a, who ≠ .attempt a →
      ∀ p ∈ att.targets, resolve p ∉ nodes))
  | .opened (.attempt a) =>
    inferInstanceAs (Decidable (∀ att ∈ w.attempts a, att.todo.getD [] = []))
  | .fail a => inferInstanceAs (Decidable (.attempt a ∉ w.opened))
  | .attempt .. | .inputFound _ | .opened (.other _) | .closed _ | .delete _ | .succeed _
  | .remove _ => isTrue trivial

/- A file that attempt `a` may remove: a part that was not there at the snapshot and, if it
is there now, was written by the open of the attempt. The input is no such file. -/
structure Owed (resolve : Path → Node) (w : World Node) (a : ℕ) (att : Attempt Node) (p : Path) :
    Prop where
  part : IsPart p
  before : att.before (resolve p) = none
  writer : ∀ who ∈ w.files (resolve p), who = .attempt a
  input : resolve p = resolve att.input → w.files (resolve p) = none ∧ att.found = false

/- While something is left for the cleanup of an attempt, its own database is not open. -/
structure Inv (resolve : Path → Node) (w : World Node) : Prop where
  known : ∀ a att, w.attempts a = some att → a < w.next
  owed : ∀ a att, w.attempts a = some att → ∀ p ∈ att.targets, Owed resolve w a att p
  unopened : ∀ a att, w.attempts a = some att → att.todo.getD [] ≠ [] → .attempt a ∉ w.opened

theorem setAttempt_self : (w.setAttempt a att).attempts a = some att := Function.update_self ..

theorem setAttempt_of_ne {b : ℕ} (h : b ≠ a) :
    (w.setAttempt a att).attempts b = w.attempts b := Function.update_of_ne h ..

/- What is owed stays so while files only go away. -/
theorem Owed.of_files (h : Owed resolve w a att p)
    (hfiles : w'.files (resolve p) = w.files (resolve p) ∨ w'.files (resolve p) = none) :
    Owed resolve w' a att p := by
  rcases hfiles with hsame | hnone
  · exact ⟨h.part, h.before, by rw [hsame]; exact h.writer, by rw [hsame]; exact h.input⟩
  · refine ⟨h.part, h.before, ?_, ?_⟩
    · intro who hwho
      rw [hnone] at hwho
      cases hwho
    · intro hinput
      exact ⟨hnone, (h.input hinput).2⟩

/- What the cleanup has to do does not matter to what is owed. -/
theorem Owed.setTodo (h : Owed resolve w a att p) (todo : Option (List Path)) :
    Owed resolve w a { att with todo := todo } p :=
  ⟨h.part, h.before, h.writer, h.input⟩

theorem Inv.of_files (hI : Inv resolve w) (hattempts : w'.attempts = w.attempts)
    (hnext : w'.next = w.next) (hopened : w'.opened ⊆ w.opened)
    (hfiles : ∀ node, w'.files node = w.files node ∨ w'.files node = none) : Inv resolve w' := by
  refine ⟨?_, ?_, ?_⟩
  · rw [hattempts, hnext]
    exact hI.known
  · rw [hattempts]
    intro a att hatt p hp
    exact (hI.owed a att hatt p hp).of_files (hfiles (resolve p))
  · rw [hattempts]
    intro a att hatt htodo hopen
    exact hI.unopened a att hatt htodo (hopened hopen)

theorem Inv.setAttempt (hI : Inv resolve w) (ha : a < w.next)
    (howed : ∀ p ∈ att.targets, Owed resolve w a att p)
    (hunopened : att.todo.getD [] ≠ [] → .attempt a ∉ w.opened) :
    Inv resolve (w.setAttempt a att) := by
  refine ⟨?_, ?_, ?_⟩
  · intro b attb hb
    by_cases hab : b = a
    · rw [hab]
      exact ha
    · apply hI.known b attb
      rwa [setAttempt_of_ne hab] at hb
  · intro b attb hb p hp
    by_cases hab : b = a
    · subst hab
      rw [setAttempt_self, Option.some.injEq] at hb
      subst hb
      exact (howed p hp).of_files (Or.inl rfl)
    · rw [setAttempt_of_ne hab] at hb
      exact (hI.owed b attb hb p hp).of_files (Or.inl rfl)
  · intro b attb hb htodo
    by_cases hab : b = a
    · subst hab
      rw [setAttempt_self, Option.some.injEq] at hb
      subst hb
      exact hunopened htodo
    · rw [setAttempt_of_ne hab] at hb
      exact hI.unopened b attb hb htodo

theorem mem_cleanupLeftoverParts {snap : Snapshot} :
    p ∈ cleanupLeftoverParts snap ↔
      p ∈ leftoverUnpackedParts snap.input ∧ ∀ q ∈ snap.preserve, ¬ same q p = true := by
  rw [cleanupLeftoverParts, List.mem_filter, Bool.not_eq_true', List.any_eq_false]

/- What a snapshot does not preserve is not there. -/
theorem cleanup_absent {files : Node → Option Writer} {input : Path}
    (hp : p ∈ cleanupLeftoverParts ⟨input, existingLeftoverParts resolve files input⟩) :
    IsPart p ∧ files (resolve p) = none := by
  rw [mem_cleanupLeftoverParts] at hp
  dsimp only at hp
  obtain ⟨hcandidate, hkept⟩ := hp
  refine ⟨leftoverUnpackedParts_part hcandidate, ?_⟩
  by_contra hpresent
  have hpreserved : p ∈ existingLeftoverParts resolve files input := by
    rw [existingLeftoverParts, List.mem_filter]
    exact ⟨hcandidate, Option.isSome_iff_ne_none.mpr hpresent⟩
  exact hkept p hpreserved (same_refl p)

theorem beginAttempt_absent {input : Path} {idbOut : Option Path} {files : Node → Option Writer}
    (hp : p ∈ (beginAttempt resolve files input idbOut).targets) :
    IsPart p ∧ files (resolve p) = none := by
  simp only [Attempt.targets, Attempt.cleanup, beginAttempt, Option.getD_none] at hp
  obtain ⟨snap, hsnap, hmem⟩ := List.mem_flatMap.mp hp
  obtain ⟨q, -, rfl⟩ := List.mem_map.mp hsnap
  exact cleanup_absent hmem

theorem start_inv (files : Node → Option Writer) (opened : List Writer) :
    Inv resolve (start files opened) :=
  ⟨nofun, nofun, nofun⟩

variable [DecidableEq Node]

theorem Inv.removeFile (hI : Inv resolve w) (node : Node) :
    Inv resolve { w with files := Function.update w.files node none } := by
  apply Inv.of_files hI
  · rfl
  · rfl
  · exact List.Subset.refl _
  · intro n
    by_cases hn : n = node
    · exact Or.inr (by rw [hn]; exact Function.update_self ..)
    · exact Or.inl (Function.update_of_ne hn ..)

/- A file the attempt's own open writes is its own, and never the input: the input was
found, so it is not one of the files. -/
theorem write_owed {nodes : List Node} (h : Owed resolve w a att p) (hatt : w.attempts a = some att)
    (hmay : w.mayWrite who = true) (hclean : who ≠ .attempt a → resolve p ∉ nodes) :
    Owed resolve { w with files := fun node => if node ∈ nodes then some who else w.files node }
      a att p := by
  by_cases hmem : resolve p ∈ nodes
  · have hwho : who = .attempt a := by
      by_contra hne
      exact hclean hne hmem
    subst hwho
    have hfound : att.found = true := by
      simpa [World.mayWrite, hatt] using hmay
    refine ⟨h.part, h.before, ?_, ?_⟩
    · intro who hwho
      simp only [if_pos hmem, Option.mem_some_iff] at hwho
      exact hwho.symm
    · intro hinput
      rw [(h.input hinput).2] at hfound
      cases hfound
  · exact h.of_files (Or.inl (if_neg hmem))

theorem step_inv (hI : Inv resolve w) (hcond : Undisturbed resolve w act)
    (h : step resolve w act = some w') : Inv resolve w' := by
  cases act with
  | attempt input idbOut =>
    cases h
    have hgrown : Inv resolve { w with next := w.next + 1 } := by
      refine ⟨fun a att hatt => ?_, fun a att hatt p hp => ?_, hI.unopened⟩
      · have hlt := hI.known a att hatt
        exact Nat.lt_succ_of_lt hlt
      · exact (hI.owed a att hatt p hp).of_files (Or.inl rfl)
    apply Inv.setAttempt hgrown (Nat.lt_succ_self w.next)
    · intro p hp
      obtain ⟨hpart, hnone⟩ := beginAttempt_absent hp
      refine ⟨hpart, hnone, ?_, fun _ => ⟨hnone, rfl⟩⟩
      intro who hwho
      rw [show w.files (resolve p) = none from hnone] at hwho
      cases hwho
    · exact fun htodo => absurd rfl htodo
  | inputFound a =>
    obtain ⟨att, hatt, hfound⟩ := Option.bind_eq_some_iff.mp h
    split at hfound
    · rename_i hpresent
      cases hfound
      apply hI.setAttempt (hI.known a att hatt)
      · intro p hp
        have howed := hI.owed a att hatt p hp
        refine ⟨howed.part, howed.before, howed.writer, ?_⟩
        intro hinput
        have habsent := (howed.input hinput).1
        rw [show resolve p = resolve att.input from hinput] at habsent
        rw [habsent] at hpresent
        cases hpresent
      · exact hI.unopened a att hatt
    · cases hfound
  | write who nodes =>
    simp only [step] at h
    split at h
    · rename_i hmay
      cases h
      refine ⟨hI.known, fun a att hatt p hp => ?_, hI.unopened⟩
      apply write_owed (hI.owed a att hatt p hp) hatt hmay
      intro hne
      exact hcond a (hI.known a att hatt) att hatt hne p hp
    · cases h
  | opened who =>
    simp only [step] at h
    split at h
    · cases h
      refine ⟨hI.known, fun a att hatt p hp => ?_, fun a att hatt htodo hopen => ?_⟩
      · exact (hI.owed a att hatt p hp).of_files (Or.inl rfl)
      · rcases List.mem_cons.mp hopen with rfl | hopen
        · exact htodo (hcond att hatt)
        · exact hI.unopened a att hatt htodo hopen
    · cases h
  | closed who =>
    cases h
    exact hI.of_files rfl rfl List.erase_subset fun _ => Or.inl rfl
  | delete node =>
    cases h
    exact hI.removeFile node
  | succeed a =>
    obtain ⟨att, hatt, hdone⟩ := Option.bind_eq_some_iff.mp h
    split at hdone
    · cases hdone
      apply hI.setAttempt (hI.known a att hatt)
      · intro p hp
        cases hp
      · exact fun htodo => absurd rfl htodo
    · cases hdone
  | fail a =>
    obtain ⟨att, hatt, hfail⟩ := Option.bind_eq_some_iff.mp h
    split at hfail
    · rename_i hnone
      cases hfail
      apply hI.setAttempt (hI.known a att hatt)
      · intro p hp
        have htarget : p ∈ att.targets := by
          rw [Attempt.targets, Option.isNone_iff_eq_none.mp hnone]
          exact hp
        exact (hI.owed a att hatt p htarget).setTodo _
      · exact fun _ => hcond
    · cases hfail
  | remove a =>
    obtain ⟨att, hatt, hremove⟩ := Option.bind_eq_some_iff.mp h
    split at hremove
    · rename_i path rest htodo
      cases hremove
      have hlost := hI.removeFile (resolve path)
      apply hlost.setAttempt (hI.known a att hatt)
      · intro p hp
        have htarget : p ∈ att.targets := by
          rw [Attempt.targets, htodo]
          exact List.mem_cons_of_mem path hp
        exact (hlost.owed a att hatt p htarget).setTodo _
      · intro _
        apply hI.unopened a att hatt
        rw [htodo]
        exact List.cons_ne_nil path rest
    · cases hremove

end Undisturbed

/- An attempt whose open is killed after it has written a part. -/
def killed : List (Act Path) :=
  [.attempt ['a'] none, .inputFound 0, .write (.attempt 0) [['a', '.', 'i', 'd', '0']], .fail 0]

end IdaHeadless.Leftover
