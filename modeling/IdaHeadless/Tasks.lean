import Mathlib.Data.List.Basic
import Mathlib.Logic.Function.Basic
import Mathlib.Tactic.Common

/-!
# Tasks over a shared memory

Cooperative tasks share a memory `M`. Each task waits at a program point of
type `P`; a move takes one task to its next point, changes the memory and may
spawn tasks. The rule at the end is the rely-guarantee rule for such a world: an
assertion about each task's own point, which the moves of other tasks respect,
holds of every task after every move.
-/

namespace IdaHeadless.Tasks
variable {M P G : Type*}

/-- The memory and where each task waits; task ids from `next` on are unused. -/
structure World (M P : Type*) where
  mem : M
  tasks : ℕ → Option P
  next : ℕ

/-- What a resumed task leaves behind: memory, its next point, spawned tasks. -/
structure Move (M P : Type*) where
  mem : M
  point : P
  spawned : List P

/-- Start the tasks `ps`, with the next unused ids in order. -/
def World.spawn (w : World M P) (ps : List P) : World M P where
  mem := w.mem
  tasks u := if u < w.next then w.tasks u else ps[u - w.next]?
  next := w.next + ps.length

/-- Task `t` has made the move `m`. -/
def World.resume (w : World M P) (t : ℕ) (m : Move M P) : World M P :=
  World.spawn ⟨m.mem, Function.update w.tasks t (some m.point), w.next⟩ m.spawned

@[simp] theorem spawn_mem (w : World M P) (ps : List P) : (w.spawn ps).mem = w.mem := rfl

@[simp] theorem resume_mem (w : World M P) (t : ℕ) (m : Move M P) :
    (w.resume t m).mem = m.mem := rfl

/-- No task has an unused id. -/
def World.Fresh (w : World M P) : Prop := ∀ u, w.next ≤ u → w.tasks u = none

theorem spawn_fresh (w : World M P) (ps : List P) : (w.spawn ps).Fresh := by
  intro u hu
  have hle : w.next + ps.length ≤ u := hu
  have hnot : ¬ u < w.next := by omega
  simp only [World.spawn, hnot, if_false, List.getElem?_eq_none_iff]
  omega

theorem resume_fresh (w : World M P) (t : ℕ) (m : Move M P) : (w.resume t m).Fresh :=
  spawn_fresh _ _

/-- A task after a spawn is an old one, or the `i`-th of the new ones. -/
theorem spawn_tasks {w : World M P} {ps : List P} {u : ℕ} {p : P}
    (h : (w.spawn ps).tasks u = some p) :
    w.tasks u = some p ∨ ∃ i, u = w.next + i ∧ ps[i]? = some p := by
  simp only [World.spawn] at h
  split at h
  · exact .inl h
  · refine .inr ⟨u - w.next, by omega, h⟩

/-- A task after a move is the one that moved, an old one, or a new one. -/
theorem resume_tasks {w : World M P} {t u : ℕ} {m : Move M P} {p : P}
    (h : (w.resume t m).tasks u = some p) :
    (u = t ∧ p = m.point) ∨ (u ≠ t ∧ w.tasks u = some p) ∨
      ∃ i, u = w.next + i ∧ m.spawned[i]? = some p := by
  rcases spawn_tasks h with hold | hnew
  · by_cases hut : u = t
    · subst hut
      simp only [Function.update_self, Option.some.injEq] at hold
      exact .inl ⟨rfl, hold.symm⟩
    · simp only [Function.update_of_ne hut] at hold
      exact .inr (.inl ⟨hut, hold⟩)
  · exact .inr (.inr hnew)

/-- The point of a task that existed is unchanged by the spawns of a move. -/
theorem resume_self {w : World M P} {t : ℕ} (m : Move M P) (ht : t < w.next) :
    (w.resume t m).tasks t = some m.point := by
  simp only [World.resume, World.spawn, ht, if_true, Function.update_self]

theorem resume_other {w : World M P} {t u : ℕ} (m : Move M P) (hu : u < w.next) (hne : u ≠ t) :
    (w.resume t m).tasks u = w.tasks u := by
  simp only [World.resume, World.spawn, hu, if_true, Function.update_of_ne hne]

theorem spawn_new {w : World M P} {ps : List P} {i : ℕ} {p : P} (h : ps[i]? = some p) :
    (w.spawn ps).tasks (w.next + i) = some p := by
  have hnot : ¬ w.next + i < w.next := by omega
  simp only [World.spawn, hnot, if_false, Nat.add_sub_cancel_left]
  exact h

theorem spawn_old {w : World M P} {ps : List P} {u : ℕ} (hu : u < w.next) :
    (w.spawn ps).tasks u = w.tasks u := by
  simp only [World.spawn, hu, if_true]

/-- Every task meets its assertion. `G` is ghost state the assertions may read. -/
def World.All (Good : G → M → ℕ → P → Prop) (g : G) (w : World M P) : Prop :=
  ∀ u p, w.tasks u = some p → Good g w.mem u p

section RelyGuarantee
variable {Good : G → M → ℕ → P → Prop} {Rely : ℕ → G → M → G → M → Prop}

/-- Rely-guarantee, for a memory change that no task made. -/
theorem spawn_all (stable : ∀ g m g' m' u p, Good g m u p → Rely u g m g' m' → Good g' m' u p)
    {g g' : G} {w : World M P} {m' : M} {ps : List P} (hall : w.All Good g)
    (hrely : ∀ u, Rely u g w.mem g' m')
    (hnew : ∀ i p, ps[i]? = some p → Good g' m' (w.next + i) p) :
    (World.spawn { w with mem := m' } ps).All Good g' := by
  intro u p hu
  rcases spawn_tasks hu with hold | ⟨i, rfl, hi⟩
  · exact stable _ _ _ _ _ _ (hall u p hold) (hrely u)
  · exact hnew i p hi

/-- Rely-guarantee, for a move of task `t`: the moved task and the new tasks meet
their assertions, and what the others rely on was respected. -/
theorem resume_all (stable : ∀ g m g' m' u p, Good g m u p → Rely u g m g' m' → Good g' m' u p)
    {g g' : G} {w : World M P} {t : ℕ} {m : Move M P} (hall : w.All Good g)
    (hrely : ∀ u, u ≠ t → Rely u g w.mem g' m.mem) (hself : Good g' m.mem t m.point)
    (hnew : ∀ i p, m.spawned[i]? = some p → Good g' m.mem (w.next + i) p) :
    (w.resume t m).All Good g' := by
  intro u p hu
  rcases resume_tasks hu with ⟨rfl, rfl⟩ | ⟨hut, hold⟩ | ⟨i, rfl, hi⟩
  · exact hself
  · exact stable _ _ _ _ _ _ (hall u p hold) (hrely u hut)
  · exact hnew i p hi

end RelyGuarantee

end IdaHeadless.Tasks
