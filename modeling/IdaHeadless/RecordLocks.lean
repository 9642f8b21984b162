import Mathlib.Data.Nat.Notation
import Mathlib.Logic.Function.Basic
import Mathlib.Tactic.Common

/-!
# One file name, its inodes and their record locks

A directory entry refers to an inode; an inode outlives its entry while it is
open. A record lock is on the inode and belongs to a process: a second process
cannot take it, any descriptor of the inode that its process closes gives it up,
and so does the end of the process. A process that has the lock on the inode the
name refers to keeps it until it closes a descriptor of it or somebody unlinks
the name, and no other process can be in that position.
-/

namespace IdaHeadless.RecordLocks

/- The file system as far as the name reaches it. Processes and inodes are numbers;
inodes from `next` on are unused. -/
structure Files (C : Type*) where
  link : Option ℕ
  next : ℕ
  content : ℕ → C
  owner : ℕ → Option ℕ

variable {C : Type*} {fs : Files C} {p q i j : ℕ}

namespace Files

/- `open` with `O_CREAT`: the inode of the name, a new one if there is none. -/
def openOrCreate (empty : C) (fs : Files C) : Files C × ℕ :=
  match fs.link with
  | some i => (fs, i)
  | none =>
    ({ fs with
        link := some fs.next
        next := fs.next + 1
        content := Function.update fs.content fs.next empty }, fs.next)

/- `F_SETLK` of a write lock by process `p` is granted. -/
def Free (fs : Files C) (p i : ℕ) : Prop := fs.owner i = none ∨ fs.owner i = some p

instance (fs : Files C) (p i : ℕ) : Decidable (fs.Free p i) :=
  inferInstanceAs (Decidable (_ ∨ _))

def lock (fs : Files C) (p i : ℕ) : Files C :=
  { fs with owner := Function.update fs.owner i (some p) }

def write (fs : Files C) (i : ℕ) (c : C) : Files C :=
  { fs with content := Function.update fs.content i c }

def unlink (fs : Files C) : Files C := { fs with link := none }

/- Process `p` closes a descriptor of inode `i`. -/
def close (fs : Files C) (p i : ℕ) : Files C :=
  { fs with
      owner := fun j => if j = i ∧ fs.owner j = some p then none else fs.owner j }

/- Process `p` ends: all its descriptors are closed. -/
def exit (fs : Files C) (p : ℕ) : Files C :=
  { fs with owner := fun j => if fs.owner j = some p then none else fs.owner j }

/- Process `p` has the lock on `i`, and the name refers to `i`. -/
structure Owns (fs : Files C) (p i : ℕ) : Prop where
  link : fs.link = some i
  owner : fs.owner i = some p

end Files

open Files

theorem owns_unique (hp : fs.Owns p i) (hq : fs.Owns q j) : p = q ∧ i = j := by
  have hij : i = j := Option.some.inj (hp.link.symm.trans hq.link)
  subst hij
  exact ⟨Option.some.inj (hp.owner.symm.trans hq.owner), rfl⟩

theorem openOrCreate_owns (empty : C) (h : fs.Owns p i) : (fs.openOrCreate empty).1.Owns p i := by
  simp only [openOrCreate, h.link]
  exact h

theorem write_owns (c : C) (h : fs.Owns p i) : (fs.write j c).Owns p i := ⟨h.link, h.owner⟩

/- A granted lock takes nothing from anybody. -/
theorem lock_keeps (hfree : fs.Free q j) (h : fs.Owns p i) : (fs.lock q j).Owns p i := by
  refine ⟨h.link, ?_⟩
  by_cases hij : i = j
  · subst hij
    have hq : fs.owner i = some q := hfree.resolve_left (by simp [h.owner])
    show Function.update fs.owner i (some q) i = some p
    rw [Function.update_self, ← hq]
    exact h.owner
  · show Function.update fs.owner j (some q) i = some p
    rw [Function.update_of_ne hij]
    exact h.owner

theorem lock_owns (h : fs.link = some i) : (fs.lock p i).Owns p i :=
  ⟨h, Function.update_self ..⟩

theorem close_owns (hne : ¬ (q = p ∧ j = i)) (h : fs.Owns p i) : (fs.close q j).Owns p i := by
  refine ⟨h.link, ?_⟩
  have hcond : ¬ (i = j ∧ fs.owner i = some q) := by
    rintro ⟨rfl, hq⟩
    exact hne ⟨Option.some.inj (hq.symm.trans h.owner), rfl⟩
  show (if i = j ∧ fs.owner i = some q then none else fs.owner i) = some p
  rw [if_neg hcond]
  exact h.owner

theorem exit_owns (hne : q ≠ p) (h : fs.Owns p i) : (fs.exit q).Owns p i := by
  refine ⟨h.link, ?_⟩
  have hcond : fs.owner i ≠ some q := fun hq => hne (Option.some.inj (hq.symm.trans h.owner))
  show (if fs.owner i = some q then none else fs.owner i) = some p
  rw [if_neg hcond]
  exact h.owner

end IdaHeadless.RecordLocks
