import Mathlib.Data.List.Basic
import Mathlib.Data.Nat.Notation
import Mathlib.Tactic.Common

/-!
# Writes to ranges

A range of a list is filled with one value, and the bytes of a memory are overwritten from an
address on. After many writes each place holds what the last write that reached it has put there.
-/

namespace IdaHeadless.Overlay

variable {α : Type*} {l : List α} {start stop i : ℕ} {v : α}

/-! ### Filling -/

/-- `memset` from `start` on, up to `stop`. -/
def fill (l : List α) (start stop : ℕ) (v : α) : List α :=
  l.mapIdx fun i x => if start ≤ i ∧ i < stop then v else x

@[simp] theorem length_fill (l : List α) (start stop : ℕ) (v : α) :
    (fill l start stop v).length = l.length := List.length_mapIdx

theorem getElem?_fill (l : List α) (start stop : ℕ) (v : α) (i : ℕ) :
    (fill l start stop v)[i]? = l[i]?.map fun x => if start ≤ i ∧ i < stop then v else x :=
  List.getElem?_mapIdx

/-! ### Writing -/

/-- The values `vs` from `addr` on, over what was there. -/
def write (mem : ℕ → Option α) (w : ℕ × List α) : ℕ → Option α :=
  fun a => if w.1 ≤ a ∧ a < w.1 + w.2.length then w.2[a - w.1]? else mem a

/-- Write after write. -/
def replay (mem : ℕ → Option α) (ws : List (ℕ × List α)) : ℕ → Option α := ws.foldl write mem

/-- The write reaches address `a`. -/
def Touches (w : ℕ × List α) (a : ℕ) : Prop := w.1 ≤ a ∧ a < w.1 + w.2.length

instance (w : ℕ × List α) (a : ℕ) : Decidable (Touches w a) := inferInstanceAs (Decidable (_ ∧ _))

variable {mem mem' : ℕ → Option α} {ws before after : List (ℕ × List α)} {w : ℕ × List α} {a : ℕ}

theorem write_touched (h : Touches w a) : write mem w a = w.2[a - w.1]? := if_pos h

theorem write_untouched (h : ¬ Touches w a) : write mem w a = mem a := if_neg h

theorem replay_append : replay mem (before ++ after) = replay (replay mem before) after :=
  List.foldl_append

theorem replay_untouched (h : ∀ w ∈ ws, ¬ Touches w a) : replay mem ws a = mem a := by
  induction ws generalizing mem with
  | nil => rfl
  | cons w ws ih =>
    have hrest : replay (write mem w) ws a = write mem w a :=
      ih fun x hx => h x (List.mem_cons_of_mem w hx)
    exact hrest.trans (write_untouched (h w List.mem_cons_self))

/-- The last write that reaches an address decides what is there. -/
theorem replay_last (hw : Touches w a) (h : ∀ x ∈ after, ¬ Touches x a) :
    replay mem (before ++ w :: after) a = w.2[a - w.1]? := by
  rw [replay_append]
  show replay (write (replay mem before) w) after a = w.2[a - w.1]?
  rw [replay_untouched h, write_touched hw]

/-- What is written where something is keeps that there is something. -/
theorem isSome_write (h : (mem a).isSome = true) : (write mem w a).isSome = true := by
  by_cases hw : Touches w a
  · have hlt : a - w.1 < w.2.length := by
      obtain ⟨hfrom, hto⟩ := hw
      omega
    rw [write_touched hw, List.getElem?_eq_getElem hlt]
    rfl
  · rw [write_untouched hw]
    exact h

theorem replay_congr (h : mem a = mem' a) : replay mem ws a = replay mem' ws a := by
  induction ws generalizing mem mem' with
  | nil => exact h
  | cons w ws ih =>
    have hwrite : write mem w a = write mem' w a := by
      by_cases hw : Touches w a
      · rw [write_touched hw, write_touched hw]
      · rw [write_untouched hw, write_untouched hw, h]
    exact ih hwrite

end IdaHeadless.Overlay
