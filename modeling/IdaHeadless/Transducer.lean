import Mathlib.Data.List.Basic

/-!
# Transducers

A machine that reads symbols, writes others and may refuse. What it makes of a text is put together
from what it makes of the parts.
-/

namespace IdaHeadless.Transducer

variable {σ α β : Type} {step : σ → α → Option (σ × List β)} {s s' s'' : σ} {a : α}
  {as as' : List α} {bs bs' : List β}

def run (step : σ → α → Option (σ × List β)) (s : σ) : List α → Option (σ × List β)
  | [] => some (s, [])
  | a :: as =>
    match step s a with
    | some (s', bs) => (run step s' as).map fun (s'', bs') => (s'', bs ++ bs')
    | none => none

/-- From `s` the machine reads all of `as`, writes `bs` and stops in `s'`. -/
def Reads (step : σ → α → Option (σ × List β)) (s : σ) (as : List α) (s' : σ) (bs : List β) :
    Prop := run step s as = some (s', bs)

theorem Reads.nil : Reads step s [] s [] := rfl

theorem Reads.cons (h : step s a = some (s', bs)) (h' : Reads step s' as s'' bs') :
    Reads step s (a :: as) s'' (bs ++ bs') := by
  rw [Reads] at h'
  rw [Reads, run, h]
  simp only [h', Option.map_some]

theorem Reads.single (h : step s a = some (s', bs)) : Reads step s [a] s' bs := by
  have hreads := Reads.cons h Reads.nil
  rwa [List.append_nil] at hreads

theorem run_append (s : σ) (as as' : List α) :
    run step s (as ++ as') =
      (run step s as).bind fun (s', bs) =>
        (run step s' as').map fun (s'', bs') => (s'', bs ++ bs') := by
  induction as generalizing s with
  | nil => simp [run]
  | cons a as ih =>
    rw [List.cons_append, run, run]
    cases hstep : step s a with
    | none => rfl
    | some p =>
      obtain ⟨s', bs⟩ := p
      simp only [ih]
      cases hrun : run step s' as with
      | none => rfl
      | some q =>
        obtain ⟨s'', bs'⟩ := q
        simp only [Option.bind_some, Option.map_some, Option.map_map]
        congr 1
        funext r
        simp only [Function.comp, List.append_assoc]

theorem Reads.append (h : Reads step s as s' bs) (h' : Reads step s' as' s'' bs') :
    Reads step s (as ++ as') s'' (bs ++ bs') := by
  rw [Reads] at h h'
  rw [Reads, run_append, h, Option.bind_some]
  simp only [h', Option.map_some]

/- Whatever follows, a text begins with what it begins with. -/
theorem run_append_eq_some (h : Reads step s as s' bs)
    (hrun : run step s (as ++ as') = some (s'', bs')) :
    ∃ rest, bs' = bs ++ rest ∧ Reads step s' as' s'' rest := by
  rw [Reads] at h
  rw [run_append, h, Option.bind_some, Option.map_eq_some_iff] at hrun
  obtain ⟨⟨t, rest⟩, hrest, heq⟩ := hrun
  cases heq
  exact ⟨rest, rfl, hrest⟩

theorem run_append_none (h : run step s as = none) (as' : List α) :
    run step s (as ++ as') = none := by
  rw [run_append, h, Option.bind_none]

end IdaHeadless.Transducer
