import Mathlib.Data.List.Induction
import Mathlib.Data.Option.Basic
import Mathlib.Logic.Function.Basic

/-!
# Runs of a partial step function

A system is a partial function `step : S → A → Option S`: `none` means that the
scheduler may not take action `a` in state `s`. A run is a finite list of
actions. The rules below carry a property along every run, along the runs
whose steps all meet a condition, and back to an earlier moment of the run.
-/

namespace IdaHeadless.Runs
variable {S A : Type*}

/-- The state after the actions `as`, if each of them is enabled in turn. -/
def run (step : S → A → Option S) : S → List A → Option S
  | s, [] => some s
  | s, a :: as => (step s a).bind fun t => run step t as

/-- Every step of the run from `s` along `as` meets `G`. -/
def Along (step : S → A → Option S) (G : S → A → Prop) : S → List A → Prop
  | _, [] => True
  | s, a :: as => G s a ∧ ∀ t, step s a = some t → Along step G t as

/- The run from `s` along `as` passes through `u`. -/
def Visits (step : S → A → Option S) (s : S) (as : List A) (u : S) : Prop :=
  ∃ bs cs, as = bs ++ cs ∧ run step s bs = some u

/-- `t` is reached from `s` by some run. -/
def Reaches (step : S → A → Option S) (s t : S) : Prop := ∃ as, run step s as = some t

variable {step : S → A → Option S}

instance Along.decidable (G : S → A → Prop) [∀ s a, Decidable (G s a)] :
    ∀ (as : List A) (s : S), Decidable (Along step G s as)
  | [], _ => isTrue trivial
  | a :: as, s =>
    match h : step s a with
    | none => decidable_of_iff (G s a) (by simp [Along, h])
    | some t =>
      have := Along.decidable G as t
      decidable_of_iff (G s a ∧ Along step G t as) (by simp [Along, h])

theorem Along.and {G H : S → A → Prop} {s : S} {as : List A} (hG : Along step G s as)
    (hH : Along step H s as) : Along step (fun t a => G t a ∧ H t a) s as := by
  induction as generalizing s with
  | nil => trivial
  | cons a as ih => exact ⟨⟨hG.1, hH.1⟩, fun t ht => ih (hG.2 t ht) (hH.2 t ht)⟩

/- A condition on the actions alone. -/
theorem Along.of_forall {G : S → A → Prop} {s : S} {as : List A} (h : ∀ a ∈ as, ∀ t, G t a) :
    Along step G s as := by
  induction as generalizing s with
  | nil => trivial
  | cons a as ih =>
    exact ⟨h a (List.mem_cons_self ..) s, fun t _ => ih fun b hb => h b (List.mem_cons_of_mem a hb)⟩

theorem run_cons_iff {s u : S} {a : A} {as : List A} :
    run step s (a :: as) = some u ↔ ∃ t, step s a = some t ∧ run step t as = some u := by
  simp only [run, Option.bind_eq_some_iff]

theorem run_append_iff {s u : S} {as bs : List A} :
    run step s (as ++ bs) = some u ↔ ∃ t, run step s as = some t ∧ run step t bs = some u := by
  induction as generalizing s with
  | nil => simp [run]
  | cons a as ih =>
    simp only [List.cons_append, run_cons_iff, ih]
    constructor
    · rintro ⟨t, hst, v, htv, hvu⟩
      exact ⟨v, ⟨t, hst, htv⟩, hvu⟩
    · rintro ⟨v, ⟨t, hst, htv⟩, hvu⟩
      exact ⟨t, hst, v, htv, hvu⟩

theorem run_snoc_iff {s u : S} {a : A} {as : List A} :
    run step s (as ++ [a]) = some u ↔ ∃ t, run step s as = some t ∧ step t a = some u := by
  rw [run_append_iff]
  constructor
  · rintro ⟨t, hst, htu⟩
    obtain ⟨v, htv, hvu⟩ := run_cons_iff.mp htu
    cases hvu
    exact ⟨t, hst, htv⟩
  · rintro ⟨t, hst, htu⟩
    exact ⟨t, hst, run_cons_iff.mpr ⟨u, htu, rfl⟩⟩

/-- Invariant rule: what every step keeps, every run keeps. -/
theorem run_inv (Inv : S → Prop) (hstep : ∀ s a t, Inv s → step s a = some t → Inv t)
    {s t : S} {as : List A} (hs : Inv s) (h : run step s as = some t) : Inv t := by
  induction as generalizing s with
  | nil =>
    cases h
    exact hs
  | cons a as ih =>
    obtain ⟨u, hsu, hut⟩ := run_cons_iff.mp h
    exact ih (hstep s a u hs hsu) hut

/-- Invariant rule for the runs whose steps all meet `G`. -/
theorem run_inv_along (Inv : S → Prop) {G : S → A → Prop}
    (hstep : ∀ s a t, Inv s → G s a → step s a = some t → Inv t)
    {s t : S} {as : List A} (hs : Inv s) (hG : Along step G s as)
    (h : run step s as = some t) : Inv t := by
  induction as generalizing s with
  | nil =>
    cases h
    exact hs
  | cons a as ih =>
    obtain ⟨u, hsu, hut⟩ := run_cons_iff.mp h
    exact ih (hstep s a u hs hG.1 hsu) (hG.2 u hsu) hut

/- What an invariant gives at each step that meets `G`, the whole run has. -/
theorem Along.mono (Inv : S → Prop) {G H : S → A → Prop}
    (hstep : ∀ s a t, Inv s → G s a → step s a = some t → Inv t)
    (himp : ∀ s a, Inv s → G s a → H s a) {s : S} {as : List A} (hs : Inv s)
    (hG : Along step G s as) : Along step H s as := by
  induction as generalizing s with
  | nil => trivial
  | cons a as ih =>
    exact ⟨himp s a hs hG.1, fun t ht => ih (hstep s a t hs hG.1 ht) (hG.2 t ht)⟩

theorem Along.step_at {G : S → A → Prop} {s t : S} {a : A} {as bs : List A}
    (hG : Along step G s (as ++ a :: bs)) (h : run step s as = some t) : G t a := by
  induction as generalizing s with
  | nil =>
    cases h
    exact hG.1
  | cons b as ih =>
    obtain ⟨u, hsu, hut⟩ := run_cons_iff.mp h
    exact ih (hG.2 u hsu) hut

/-- A run that ends in `P` and did not begin in it has a step that enters it. -/
theorem run_entry {P : S → Prop} {s t : S} {as : List A} (hs : ¬ P s)
    (h : run step s as = some t) (ht : P t) :
    ∃ bs a cs u v, as = bs ++ a :: cs ∧ run step s bs = some u ∧ step u a = some v ∧ P v ∧
      ¬ P u ∧ run step v cs = some t := by
  induction as generalizing s with
  | nil =>
    cases h
    exact absurd ht hs
  | cons a as ih =>
    obtain ⟨v, hsv, hvt⟩ := run_cons_iff.mp h
    by_cases hv : P v
    · exact ⟨[], a, as, s, v, rfl, rfl, hsv, hv, hs, hvt⟩
    · obtain ⟨bs, b, cs, u, w, rfl, hvu, huw, hw, hu, hwt⟩ := ih hv hvt
      exact ⟨a :: bs, b, cs, u, w, rfl, run_cons_iff.mpr ⟨v, hsv, hvu⟩, huw, hw, hu, hwt⟩

/-- Remembering rule: a step into the region `In` starts a memory `Q t t` of the
state it reaches, a step inside the region keeps the memories it finds. Then a
run that ends in the region has passed through a state the last one remembers. -/
theorem run_since (Inv In : S → Prop) {Q : S → S → Prop}
    (hinv : ∀ s a t, Inv s → step s a = some t → Inv t)
    (hstep : ∀ s a t, Inv s → step s a = some t → In t → Q t t ∨ (In s ∧ ∀ u, Q u s → Q u t))
    {s t : S} {as : List A} (hs : Inv s) (hout : ¬ In s) (h : run step s as = some t)
    (ht : In t) :
    ∃ bs cs u, as = bs ++ cs ∧ run step s bs = some u ∧ run step u cs = some t ∧ Q u t := by
  -- The memory is about the past, so the induction is on the last action.
  induction as using List.reverseRecOn generalizing t with
  | nil =>
    cases h
    exact absurd ht hout
  | append_singleton as a ih =>
    obtain ⟨v, hsv, hvt⟩ := run_snoc_iff.mp h
    rcases hstep v a t (run_inv Inv hinv hs hsv) hvt ht with hself | ⟨hv, hkeep⟩
    · exact ⟨as ++ [a], [], t, by simp, h, rfl, hself⟩
    · obtain ⟨bs, cs, u, rfl, hsu, huv, hq⟩ := ih hsv hv
      exact ⟨bs, cs ++ [a], u, by simp, hsu, run_snoc_iff.mpr ⟨v, huv, hvt⟩, hkeep u hq⟩

/- A relation to the past: what holds between a state and itself, and is kept by every
step of the later one, holds between each state of a run and its end. -/
theorem run_visited (Inv : S → Prop) (R : S → S → Prop)
    (hinv : ∀ s a t, Inv s → step s a = some t → Inv t) (hrefl : ∀ s, Inv s → R s s)
    (hstep : ∀ u s a t, Inv s → R u s → step s a = some t → R u t)
    {s t u : S} {as : List A} (hs : Inv s) (h : run step s as = some t)
    (hu : Visits step s as u) : R u t := by
  obtain ⟨bs, cs, rfl, hsu⟩ := hu
  obtain ⟨v, hsv, hvt⟩ := run_append_iff.mp h
  rw [hsu] at hsv
  cases hsv
  have hIu : Inv u := run_inv Inv hinv hs hsu
  have hboth : Inv t ∧ R u t :=
    run_inv (fun x => Inv x ∧ R u x)
      (fun x a y hx hxy => ⟨hinv x a y hx.1 hxy, hstep u x a y hx.1 hx.2 hxy⟩)
      ⟨hIu, hrefl u hIu⟩ hvt
  exact hboth.2

end IdaHeadless.Runs
