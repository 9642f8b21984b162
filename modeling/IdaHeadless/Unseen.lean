import Mathlib.Data.List.Nodup

/-!
# Lists without duplicates

A vector that takes only what is not in it yet ends up with the elements of a list, each where it
first stands.
-/

namespace IdaHeadless.Unseen

variable {α : Type*}

theorem removeAll_push [BEq α] [LawfulBEq α] (l seen : List α) (x : α) :
    l.removeAll (seen ++ [x]) = (l.removeAll seen).filter fun y => !y == x := by
  simp only [List.removeAll, List.filter_filter]
  refine List.filter_congr fun y _ => ?_
  rw [Bool.eq_iff_iff]
  simp [and_comm]

variable [DecidableEq α]

def insertNew (seen : List α) (x : α) : List α := if x ∈ seen then seen else seen ++ [x]

theorem foldl_insertNew (l seen : List α) :
    l.foldl insertNew seen = seen ++ (l.removeAll seen).eraseDups := by
  induction l generalizing seen with
  | nil => simp [List.removeAll]
  | cons x l ih =>
    rw [List.foldl_cons, List.cons_removeAll, insertNew]
    by_cases hx : x ∈ seen
    · rw [if_pos hx, if_neg (by simp [hx]), ih]
    · rw [if_neg hx, if_pos (by simpa using hx), ih, removeAll_push, List.eraseDups_cons,
        List.append_assoc, List.singleton_append]

theorem foldl_insertNew_nil (l : List α) : l.foldl insertNew [] = l.eraseDups := by
  rw [foldl_insertNew, List.removeAll_nil, List.nil_append]

theorem nodup_insertNew {seen : List α} (h : seen.Nodup) (x : α) : (insertNew seen x).Nodup := by
  rw [insertNew]
  split
  · exact h
  · rename_i hx
    exact List.nodup_append.mpr ⟨h, List.nodup_singleton x, fun y hy z hz hyz =>
      hx (List.mem_singleton.mp hz ▸ hyz ▸ hy)⟩

theorem nodup_eraseDups (l : List α) : l.eraseDups.Nodup := by
  rw [← foldl_insertNew_nil]
  exact List.foldlRecOn l insertNew List.nodup_nil fun _ h x _ => nodup_insertNew h x

end IdaHeadless.Unseen
