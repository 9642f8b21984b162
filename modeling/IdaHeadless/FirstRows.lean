import Mathlib.Data.List.Basic
import Mathlib.Data.List.Infix
import Mathlib.Data.Nat.Notation
import Mathlib.Tactic.Common

/-!
# The first rows of a list

A search makes a row of some elements of a list and shows the first `m` of them. Two searches
over the same list are compared: when they show the same, and when they are cut at the same time.
-/

namespace IdaHeadless.FirstRows

variable {α β : Type*} {f p q : α → Option β} {m : ℕ} {c : α} {cs : List α}

/-- `m` rows are found before the end of the list. -/
def CutAt (f : α → Option β) (m : ℕ) (cs : List α) : Prop :=
  ∃ i < cs.length, m ≤ ((cs.take i).filterMap f).length

theorem cutAt_zero : CutAt f 0 (c :: cs) := ⟨0, by simp, Nat.zero_le _⟩

theorem not_cutAt_nil : ¬ CutAt f m [] := fun ⟨_, hi, _⟩ => absurd hi (Nat.not_lt_zero _)

theorem cutAt_cons_none (h : f c = none) : CutAt f (m + 1) (c :: cs) ↔ CutAt f (m + 1) cs := by
  constructor
  · rintro ⟨i, hi, hm⟩
    cases i with
    | zero => simp at hm
    | succ i =>
      rw [List.take_succ_cons, List.filterMap_cons_none h] at hm
      exact ⟨i, Nat.lt_of_succ_lt_succ hi, hm⟩
  · rintro ⟨i, hi, hm⟩
    refine ⟨i + 1, Nat.succ_lt_succ hi, ?_⟩
    rw [List.take_succ_cons, List.filterMap_cons_none h]
    exact hm

theorem cutAt_cons_some {row : β} (h : f c = some row) :
    CutAt f (m + 1) (c :: cs) ↔ CutAt f m cs := by
  constructor
  · rintro ⟨i, hi, hm⟩
    cases i with
    | zero => simp at hm
    | succ i =>
      rw [List.take_succ_cons, List.filterMap_cons_some h, List.length_cons] at hm
      exact ⟨i, Nat.lt_of_succ_lt_succ hi, Nat.le_of_succ_le_succ hm⟩
  · rintro ⟨i, hi, hm⟩
    refine ⟨i + 1, Nat.succ_lt_succ hi, ?_⟩
    rw [List.take_succ_cons, List.filterMap_cons_some h, List.length_cons]
    exact Nat.succ_le_succ hm

/- The first rows are the rows of the first elements that have one. -/
theorem filterMap_take (p : α → Option β) (cs : List α) (m : ℕ) :
    ((cs.filter fun x => (p x).isSome).take m).filterMap p = (cs.filterMap p).take m := by
  induction cs generalizing m with
  | nil => simp
  | cons c cs ih =>
    cases hp : p c with
    | none => rw [List.filter_cons_of_neg (by simp [hp]), List.filterMap_cons_none hp, ih]
    | some row =>
      rw [List.filter_cons_of_pos (by simp [hp]), List.filterMap_cons_some hp]
      cases m with
      | zero => rfl
      | succ m => rw [List.take_succ_cons, List.filterMap_cons_some hp, List.take_succ_cons, ih]

theorem length_filterMap (p : α → Option β) (cs : List α) :
    (cs.filterMap p).length = (cs.filter fun x => (p x).isSome).length := by
  rw [List.length_filterMap_eq_countP, List.countP_eq_length_filter]

variable {keeps : α → Prop} [DecidablePred keeps]

/- `q` drops some rows of `p`. The first rows agree exactly where none of them is dropped, as no
row comes twice. -/
theorem take_filterMap_eq_iff (hq : ∀ x ∈ cs, q x = if keeps x then p x else none)
    (hrows : cs.Pairwise fun x y => ∀ r s, p x = some r → p y = some s → r ≠ s) (m : ℕ) :
    (cs.filterMap q).take m = (cs.filterMap p).take m ↔
      ∀ x ∈ (cs.filter fun x => (p x).isSome).take m, keeps x := by
  induction cs generalizing m with
  | nil => simp
  | cons c cs ih =>
    have htail := fun n => ih (fun x hx => hq x (List.mem_cons_of_mem c hx))
      (List.pairwise_cons.mp hrows).2 n
    have hc := hq c List.mem_cons_self
    cases hp : p c with
    | none =>
      rw [hp, ite_self] at hc
      rw [List.filterMap_cons_none hc, List.filterMap_cons_none hp,
        List.filter_cons_of_neg (by simp [hp])]
      exact htail m
    | some row =>
      rw [List.filterMap_cons_some hp, List.filter_cons_of_pos (by simp [hp])]
      cases m with
      | zero => simp
      | succ m =>
        by_cases hkeeps : keeps c
        · rw [if_pos hkeeps, hp] at hc
          rw [List.filterMap_cons_some hc, List.take_succ_cons, List.take_succ_cons,
            List.take_succ_cons, List.cons_inj_right, htail m]
          simp [hkeeps]
        · -- the row of `c` is missing, and no later row is the same
          rw [if_neg hkeeps] at hc
          rw [List.filterMap_cons_none hc]
          refine iff_of_false ?_ fun h => hkeeps (h c (by simp))
          intro heq
          have hmem : row ∈ (cs.filterMap q).take (m + 1) := by
            rw [heq, List.take_succ_cons]
            exact List.mem_cons_self
          obtain ⟨y, hy, hyrow⟩ := List.mem_filterMap.mp (List.mem_of_mem_take hmem)
          rw [hq y (List.mem_cons_of_mem c hy)] at hyrow
          split at hyrow
          · exact (List.pairwise_cons.mp hrows).1 y hy row row hp hyrow rfl
          · cases hyrow

/- Where none of the first rows is dropped, both are cut at the same time. -/
theorem cutAt_iff (hq : ∀ x ∈ cs, q x = if keeps x then p x else none)
    (hkeeps : ∀ x ∈ (cs.filter fun x => (p x).isSome).take m, keeps x) :
    CutAt q m cs ↔ CutAt p m cs := by
  induction cs generalizing m with
  | nil => exact iff_of_false not_cutAt_nil not_cutAt_nil
  | cons c cs ih =>
    have hc := hq c List.mem_cons_self
    have htail : ∀ x ∈ cs, q x = if keeps x then p x else none := fun x hx =>
      hq x (List.mem_cons_of_mem c hx)
    cases m with
    | zero => exact iff_of_true cutAt_zero cutAt_zero
    | succ m =>
      cases hp : p c with
      | none =>
        rw [hp, ite_self] at hc
        rw [List.filter_cons_of_neg (by simp [hp])] at hkeeps
        rw [cutAt_cons_none hc, cutAt_cons_none hp, ih htail hkeeps]
      | some row =>
        rw [List.filter_cons_of_pos (by simp [hp]), List.take_succ_cons] at hkeeps
        rw [if_pos (hkeeps c List.mem_cons_self), hp] at hc
        rw [cutAt_cons_some hc, cutAt_cons_some hp,
          ih htail fun x hx => hkeeps x (List.mem_cons_of_mem c hx)]

/- Two filters show the same first elements exactly where they agree up to the last of them. -/
theorem take_filter_eq_iff {p q : α → Bool} {l : List α} (hl : l.Nodup) (m : ℕ) :
    (l.filter q).take m = (l.filter p).take m ↔
      ∀ before a after, l = before ++ a :: after → (before.filter p).length < m →
        (p a = true ↔ q a = true) := by
  induction l generalizing m with
  | nil => simp
  | cons c l ih =>
    obtain ⟨hc, hnodup⟩ := List.nodup_cons.mp hl
    have hsplit : ∀ P : List α → α → List α → Prop,
        (∀ before a after, c :: l = before ++ a :: after → P before a after) ↔
          P [] c l ∧ ∀ before a after, l = before ++ a :: after → P (c :: before) a after := by
      intro P
      constructor
      · intro h
        exact ⟨h [] c l rfl, fun before a after hl => h (c :: before) a after (by rw [hl]; rfl)⟩
      · rintro ⟨hfirst, hrest⟩ before a after heq
        cases before with
        | nil =>
          cases heq
          exact hfirst
        | cons b before =>
          obtain ⟨rfl, hl⟩ := List.cons.inj heq
          exact hrest before a after hl
    cases m with
    | zero => simp
    | succ m =>
      rw [hsplit]
      by_cases hp : p c = true
      · by_cases hq : q c = true
        · simp only [List.filter_cons_of_pos, hp, hq, List.take_succ_cons, List.cons_inj_right,
            ih hnodup, List.length_cons, Nat.add_lt_add_iff_right, iff_self, implies_true, true_and]
        · refine iff_of_false (fun heq => ?_) fun h => hq ((h.1 (Nat.succ_pos m)).mp hp)
          rw [List.filter_cons_of_neg hq, List.filter_cons_of_pos hp, List.take_succ_cons] at heq
          have hmem : c ∈ (l.filter q).take (m + 1) := heq ▸ List.mem_cons_self
          exact hc (List.mem_filter.mp (List.mem_of_mem_take hmem)).1
      · by_cases hq : q c = true
        · refine iff_of_false (fun heq => ?_) fun h => hp ((h.1 (Nat.succ_pos m)).mpr hq)
          rw [List.filter_cons_of_pos hq, List.filter_cons_of_neg hp, List.take_succ_cons] at heq
          have hmem : c ∈ (l.filter p).take (m + 1) := heq ▸ List.mem_cons_self
          exact hc (List.mem_filter.mp (List.mem_of_mem_take hmem)).1
        · rw [List.filter_cons_of_neg hq, List.filter_cons_of_neg hp, ih hnodup]
          simp only [List.filter_cons_of_neg hp, hp, hq, iff_self, implies_true, true_and]

/- The first hit is among the first elements, or there is none. -/
theorem find?_take_iff {p : α → Bool} {l : List α} (n : ℕ) :
    (l.take n).find? p = l.find? p ↔ ∀ i, l.findIdx? p = some i → i < n := by
  induction l generalizing n with
  | nil => simp
  | cons a l ih =>
    rw [List.findIdx?_cons]
    cases n with
    | zero =>
      cases hp : p a with
      | true => simp [hp]
      | false =>
        have htail := ih 0
        rw [List.take_zero, List.find?_nil] at htail
        rw [List.take_zero, List.find?_nil, List.find?_cons_of_neg (by simp [hp]), htail]
        simp
    | succ n =>
      cases hp : p a with
      | true => simp [hp]
      | false =>
        rw [List.take_succ_cons, List.find?_cons_of_neg (by simp [hp]),
          List.find?_cons_of_neg (by simp [hp]), ih n]
        simp

/- A search that answers a miss differently from any hit. -/
theorem answer_take_iff {γ : Type*} {answer : Option α → γ} {p : α → Bool} {l : List α}
    (hmiss : ∀ a, answer none ≠ answer (some a)) (n : ℕ) :
    answer ((l.take n).find? p) = answer (l.find? p) ↔ ∀ i, l.findIdx? p = some i → i < n := by
  rw [← find?_take_iff]
  refine ⟨fun h => ?_, congrArg answer⟩
  cases htake : (l.take n).find? p with
  | none =>
    cases hfind : l.find? p with
    | none => rfl
    | some a =>
      rw [htake, hfind] at h
      exact absurd h (hmiss a)
  | some a =>
    have hall : (l.take n ++ l.drop n).find? p = some a := by
      rw [List.find?_append, htake, Option.some_or]
    rw [List.take_append_drop] at hall
    exact hall.symm

end IdaHeadless.FirstRows
