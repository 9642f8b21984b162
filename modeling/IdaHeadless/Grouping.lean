import Mathlib.Data.Finset.Sort
import Mathlib.Order.Lattice

/-!
# Grouping pairs by their keys

An ordered map is an association list whose keys ascend. Pairs come into it one by one, and a
step function says what a pair does to the value at its key. The map then has the keys of the
pairs, each with what its own pairs make of it in their order.
-/

namespace Grouping

variable {κ ν β γ : Type*} [LinearOrder κ]

/-- `map.entry(key)`, with what becomes of the value there. -/
def upsert (key : κ) (f : Option β → β) : List (κ × β) → List (κ × β)
  | [] => [(key, f none)]
  | (k, b) :: rest =>
    if key < k then (key, f none) :: (k, b) :: rest
    else if key = k then (k, f (some b)) :: rest
    else (k, b) :: upsert key f rest

def groupInto (step : Option β → ν → β) (m : List (κ × β)) (pairs : List (κ × ν)) :
    List (κ × β) :=
  pairs.foldl (fun m p => upsert p.1 (step · p.2) m) m

def groupBy (step : Option β → ν → β) (pairs : List (κ × ν)) : List (κ × β) :=
  groupInto step [] pairs

/-- The values of the pairs with one key, in their order. -/
def valuesAt (key : κ) (pairs : List (κ × ν)) : List ν :=
  (pairs.filter (·.1 = key)).map Prod.snd

def Ascending (m : List (κ × β)) : Prop := (m.map Prod.fst).Pairwise (· < ·)

variable {key k : κ} {f : Option β → β} {m : List (κ × β)} {step : Option β → ν → β}
  {pairs : List (κ × ν)}

/-! ### One pair -/

theorem mem_keys_upsert : k ∈ (upsert key f m).map Prod.fst ↔ k = key ∨ k ∈ m.map Prod.fst := by
  induction m with
  | nil => simp [upsert]
  | cons e rest ih =>
    rw [upsert]
    split
    · simp
    · split
      · rename_i heq
        simp [heq]
      · simp only [List.map_cons, List.mem_cons, ih]
        exact or_left_comm

theorem upsert_ascending (h : Ascending m) : Ascending (upsert key f m) := by
  induction m with
  | nil => exact List.pairwise_singleton _ _
  | cons e rest ih =>
    obtain ⟨hhead, hrest⟩ := List.pairwise_cons.mp h
    rw [upsert]
    split
    · rename_i hlt
      refine List.pairwise_cons.mpr ⟨fun j hj => ?_, h⟩
      rcases List.mem_cons.mp hj with rfl | hj
      · exact hlt
      · exact hlt.trans (hhead j hj)
    · split
      · exact h
      · rename_i hlt hne
        refine List.pairwise_cons.mpr ⟨fun j hj => ?_, ih hrest⟩
        rcases mem_keys_upsert.mp hj with rfl | hj
        · exact lt_of_le_of_ne (not_lt.mp hlt) (Ne.symm hne)
        · exact hhead j hj

theorem lookup_eq_none (h : ∀ e ∈ m, e.1 ≠ k) : m.lookup k = none :=
  List.lookup_eq_none_iff.mpr fun e he => by simpa using (h e he).symm

theorem lookup_upsert_self (h : Ascending m) :
    (upsert key f m).lookup key = some (f (m.lookup key)) := by
  induction m with
  | nil => simp [upsert]
  | cons e rest ih =>
    obtain ⟨hhead, hrest⟩ := List.pairwise_cons.mp h
    rw [upsert]
    split
    · rename_i hlt
      have hnone : (e :: rest).lookup key = none := by
        refine lookup_eq_none fun e' he' => ?_
        rcases List.mem_cons.mp he' with rfl | he'
        · exact hlt.ne'
        · exact (hlt.trans (hhead e'.1 (List.mem_map_of_mem he'))).ne'
      rw [List.lookup_cons_self, hnone]
    · split
      · rename_i heq
        rw [heq, List.lookup_cons_self, List.lookup_cons_self]
      · rename_i hne
        have hbeq : (key == e.1) = false := beq_false_of_ne hne
        rw [List.lookup_cons, hbeq, ih hrest, List.lookup_cons, hbeq]

theorem lookup_upsert_other (hk : k ≠ key) : (upsert key f m).lookup k = m.lookup k := by
  induction m with
  | nil => simp [upsert, hk]
  | cons e rest ih =>
    rw [upsert]
    split
    · rw [List.lookup_cons, beq_false_of_ne hk]
    · split
      · rename_i heq
        rw [List.lookup_cons, List.lookup_cons, ← heq, beq_false_of_ne hk]
      · rw [List.lookup_cons, List.lookup_cons, ih]

/-! ### All pairs -/

theorem groupInto_ascending (h : Ascending m) : Ascending (groupInto step m pairs) := by
  induction pairs generalizing m with
  | nil => exact h
  | cons p pairs ih => exact ih (upsert_ascending h)

theorem lookup_groupInto (h : Ascending m) :
    (groupInto step m pairs).lookup key =
      (valuesAt key pairs).foldl (fun b v => some (step b v)) (m.lookup key) := by
  induction pairs generalizing m with
  | nil => rfl
  | cons p pairs ih =>
    change (groupInto step (upsert p.1 (step · p.2) m) pairs).lookup key = _
    rw [ih (upsert_ascending h)]
    by_cases hp : p.1 = key
    · have hvalues : valuesAt key (p :: pairs) = p.2 :: valuesAt key pairs := by
        simp [valuesAt, hp]
      rw [hvalues, List.foldl_cons, ← hp, lookup_upsert_self h]
    · have hvalues : valuesAt key (p :: pairs) = valuesAt key pairs := by
        simp [valuesAt, hp]
      rw [hvalues, lookup_upsert_other (Ne.symm hp)]

theorem lookup_groupBy :
    (groupBy step pairs).lookup key =
      (valuesAt key pairs).foldl (fun b v => some (step b v)) none :=
  lookup_groupInto (m := []) List.Pairwise.nil

theorem groupBy_ascending (step : Option β → ν → β) (pairs : List (κ × ν)) :
    Ascending (groupBy step pairs) :=
  groupInto_ascending List.Pairwise.nil

theorem lookup_eq_some_iff (h : Ascending m) {b : β} : m.lookup k = some b ↔ (k, b) ∈ m := by
  induction m with
  | nil => simp
  | cons e rest ih =>
    obtain ⟨hhead, hrest⟩ := List.pairwise_cons.mp h
    rw [List.lookup_cons]
    by_cases hk : k = e.1
    · rw [hk, beq_self_eq_true]
      constructor
      · intro hb
        cases hb
        exact List.mem_cons_self
      · intro hb
        rcases List.mem_cons.mp hb with hb | hb
        · rw [← hb]
        · exact absurd (hhead e.1 (List.mem_map.mpr ⟨(e.1, b), hb, rfl⟩)) (lt_irrefl _)
    · rw [beq_false_of_ne hk, ih hrest, List.mem_cons]
      constructor
      · exact .inr
      · rintro (hb | hb)
        · exact absurd (congrArg Prod.fst hb) hk
        · exact hb

/-! ### The values in a set -/

section Sets

variable [DecidableEq ν]

def insertValue (b : Option (Finset ν)) (v : ν) : Finset ν := insert v (b.getD ∅)

theorem foldl_insertValue (vs : List ν) (s : Finset ν) :
    vs.foldl (fun b v => some (insertValue b v)) (some s) = some (s ∪ vs.toFinset) := by
  induction vs generalizing s with
  | nil => rw [List.toFinset_nil, Finset.union_empty]; rfl
  | cons v vs ih =>
    rw [List.foldl_cons, ih, insertValue, Option.getD_some, List.toFinset_cons,
      Finset.insert_union, Finset.union_insert]

theorem mem_groupBy_insert {s : Finset ν} :
    (key, s) ∈ groupBy insertValue pairs ↔ s = (valuesAt key pairs).toFinset ∧ s.Nonempty := by
  rw [← lookup_eq_some_iff (groupBy_ascending insertValue pairs), lookup_groupBy]
  cases valuesAt key pairs with
  | nil =>
    constructor
    · intro h
      cases h
    · rintro ⟨rfl, h⟩
      exact absurd h Finset.not_nonempty_empty
  | cons v values =>
    have hset : insertValue none v ∪ values.toFinset = (v :: values).toFinset := by
      rw [insertValue, Option.getD_none, List.toFinset_cons, Finset.insert_union,
        Finset.empty_union]
    rw [List.foldl_cons, foldl_insertValue, hset]
    constructor
    · intro h
      cases h
      exact ⟨rfl, (List.toFinset_nonempty_iff _).mpr (List.cons_ne_nil _ _)⟩
    · rintro ⟨rfl, -⟩
      rfl

end Sets

end Grouping
