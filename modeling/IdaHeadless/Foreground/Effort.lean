import IdaHeadless.Foreground.Trails

/-!
# Every call comes to an end

A call has at most eight moves of its own ahead of it, and as long as it has not answered one of
them can be made. None of these waits for the worker, for the client or for another call: a worker
that crashed with a sender in its hands does not hold the answer back.
-/

namespace IdaHeadless.Foreground

open Operation

variable {T : Type} {c c' : Call T} {s s' : Server T} {inner : OperationRegistryInner}
  {act : Option Operation.Act} {m : Move T} {call : ℕ}

/-- The moves of the call itself, its timers and its aborted drain included. -/
def Move.own : Move T → Bool
  | .start _ | .elapse | .poll | .stopDrain | .drained | .abandon | .cleaned | .cleanupElapsed
  | .awaited | .close _ => true
  | .send _ | .dropSenders | .complete _ | .cancel | .drain _ | .drop => false

def Act.ownOf (call : ℕ) : Act T → Bool
  | .draw .. => false
  | .move other m => other = call && m.own

def Point.effort : Point T → ℕ
  | .drawn => 5
  | .selecting => 4
  | .cleaning _ => 3
  | .draining _ | .stopping _ => 2
  | .closing _ => 1
  | .answered .. | .dropped => 0

def Drain.effort : Drain → ℕ
  | .running => 2
  | .aborted => 1
  | .stopped | .ended => 0

def Call.effort (c : Call T) : ℕ :=
  c.point.effort + (if c.elapsed then 0 else 1) + c.drain.effort

def Server.effort (s : Server T) (call : ℕ) : ℕ := s.calls[call]?.elim 8 Call.effort

def Point.done : Point T → Bool
  | .answered .. | .dropped => true
  | .drawn | .selecting | .draining _ | .cleaning _ | .stopping _ | .closing _ => false

theorem effort_abort (drain : Drain) : drain.abort.effort ≤ drain.effort := by
  cases drain with
  | running | aborted | stopped | ended => decide

theorem drainStep_effort {clock : Clock} (h : c.drainStep clock = some (c', act)) :
    c'.effort ≤ c.effort := by
  unfold Call.drainStep at h
  split at h
  · cases h
  · rename_i hguard
    rw [Bool.or_eq_true, not_or, Bool.not_eq_true, Bool.not_eq_true] at hguard
    split at h
    · cases h
      exact le_rfl
    · split at h
      · cases h
      · cases h
        have hdrain : (if c.drain = .running then Drain.ended else .stopped).effort ≤
            c.drain.effort := by
          split <;> exact Nat.zero_le _
        exact Nat.add_le_add_left hdrain _

/- The point gets nearer to the answer, the timer stays, and the drain is let go on at most. -/
theorem effort_of_point {d : Call T} (hpoint : d.point.effort + 1 ≤ c.point.effort)
    (helapsed : d.elapsed = c.elapsed) (hdrain : d.drain.effort ≤ c.drain.effort) :
    d.effort + 1 ≤ c.effort := by
  rw [Call.effort, Call.effort, helapsed]
  omega

theorem selected_effort (hpoint : c.point = .selecting) (h : c.selected = some c') :
    c'.effort + 1 ≤ c.effort := by
  have hcleaning : ∀ why : Interruption, (Point.cleaning why : Point T).effort + 1 ≤
      c.point.effort := by
    intro why
    rw [hpoint]
    exact le_rfl
  unfold Call.selected at h
  split at h
  · cases h
    exact effort_of_point (by rw [hpoint]; exact Nat.le_succ 3) rfl le_rfl
  · split at h
    · cases h
      exact effort_of_point (hcleaning _) rfl le_rfl
    · split at h
      · cases h
        exact effort_of_point (hcleaning _) rfl le_rfl
      · cases h

/- A move of the call's own brings its point nearer to the answer, or ends its timer or the drain
that is aborted. No other move takes it back. -/
theorem move_effort (h : c.move inner m = some (c', act)) :
    c'.effort + (if m.own then 1 else 0) ≤ c.effort := by
  have habort := effort_abort c.drain
  cases m with
  | start | close =>
    simp only [Call.move] at h
    split at h
    · rename_i hpoint
      cases h
      exact effort_of_point (by rw [hpoint]; exact le_rfl) rfl le_rfl
    · cases h
  | poll =>
    simp only [Call.move] at h
    split at h
    · rename_i hpoint
      obtain ⟨d, hd, hpair⟩ := Option.map_eq_some_iff.mp h
      cases hpair
      exact selected_effort hpoint hd
    · cases h
  | drained | awaited =>
    simp only [Call.move] at h
    split at h
    · rename_i hpoint
      obtain ⟨-, hpair⟩ := Option.ite_none_right_eq_some.mp h
      cases hpair
      exact effort_of_point (by rw [hpoint]; exact le_rfl) rfl le_rfl
    · cases h
  | cleaned =>
    simp only [Call.move] at h
    split at h
    · rename_i hpoint
      obtain ⟨-, hpair⟩ := Option.ite_none_right_eq_some.mp h
      cases hpair
      exact effort_of_point (by rw [hpoint]; exact le_rfl) rfl habort
    · cases h
  | abandon | cleanupElapsed =>
    simp only [Call.move] at h
    split at h
    · rename_i hpoint
      obtain ⟨-, hpair⟩ := Option.ite_none_left_eq_some.mp h
      cases hpair
      exact effort_of_point (by rw [hpoint]; exact le_rfl) rfl habort
    · cases h
  | elapse =>
    simp only [Call.move] at h
    split at h
    · obtain ⟨helapsed, hpair⟩ := Option.ite_none_left_eq_some.mp h
      cases hpair
      simp only [Call.effort, helapsed, Move.own, if_true, Bool.false_eq_true, if_false]
      omega
    · cases h
  | stopDrain =>
    obtain ⟨hdrain, hpair⟩ := Option.ite_none_right_eq_some.mp h
    cases hpair
    simp only [Call.effort, hdrain, Drain.effort, Move.own, if_true, Nat.add_zero]
    exact le_rfl
  | send | complete =>
    obtain ⟨-, hpair⟩ := Option.ite_none_right_eq_some.mp h
    cases hpair
    exact le_rfl
  | dropSenders =>
    obtain ⟨-, hpair⟩ := Option.ite_none_left_eq_some.mp h
    cases hpair
    exact le_rfl
  | cancel =>
    cases h
    exact le_rfl
  | drain clock => exact drainStep_effort h
  | drop =>
    obtain ⟨-, hpair⟩ := Option.ite_none_right_eq_some.mp h
    cases hpair
    have hzero : (Point.dropped : Point T).effort ≤ c.point.effort := Nat.zero_le _
    exact Nat.add_le_add_right (Nat.add_le_add_right hzero _) _

/- A drain that still runs is only waited for as long as a timer runs with it. -/
theorem Call.Sound.can_move (hsound : c.Sound) (hdone : c.point.done = false)
    (inner : OperationRegistryInner) :
    ∃ m : Move T, m.own = true ∧ (c.move inner m).isSome = true := by
  have hat := hsound.at_point
  unfold Call.At at hat
  split at hat
  · rename_i hpoint
    exact ⟨.start ⟨0, 0⟩, rfl, by simp [Call.move, hpoint]⟩
  · rename_i hpoint
    cases helapsed : c.elapsed with
    | false => exact ⟨.elapse, rfl, by simp [Call.move, hpoint, helapsed]⟩
    | true =>
      refine ⟨.poll, rfl, ?_⟩
      simp only [Call.move, hpoint, Call.selected, helapsed]
      split
      · rfl
      · split <;> rfl
  · rename_i result hpoint
    cases hover : c.drain.over with
    | false => exact ⟨.abandon, rfl, by simp [Call.move, hpoint, hover]⟩
    | true => exact ⟨.drained, rfl, by simp [Call.move, hpoint, hover]⟩
  · rename_i why hpoint
    cases hready : c.ready with
    | none => exact ⟨.cleanupElapsed, rfl, by simp [Call.move, hpoint, hready]⟩
    | some result => exact ⟨.cleaned, rfl, by simp [Call.move, hpoint, hready]⟩
  · rename_i why hpoint
    cases hdrain : c.drain with
    | running => exact absurd hdrain hat.2
    | aborted => exact ⟨.stopDrain, rfl, by simp [Call.move, hdrain]⟩
    | stopped | ended => exact ⟨.awaited, rfl, by simp [Call.move, hpoint, hdrain, Drain.over]⟩
  · rename_i outcome hpoint
    exact ⟨.close ⟨0, 0⟩, rfl, by simp [Call.move, hpoint]⟩
  · rename_i hpoint
    rw [hpoint] at hdone
    cases hdone
  · rename_i hpoint
    rw [hpoint] at hdone
    cases hdone

theorem step_effort {a : Act T} (h : step s a = some s') (call : ℕ) :
    s'.effort call + (if a.ownOf call then 1 else 0) ≤ s.effort call := by
  cases a with
  | draw now toolName targetSummary timeoutSecs defaultTimeoutSecs =>
    cases h
    simp only [Act.ownOf, Bool.false_eq_true, if_false, Nat.add_zero, Server.effort]
    rcases Nat.lt_trichotomy call s.calls.length with hlt | heq | hgt
    · rw [List.getElem?_append_left hlt]
    · subst heq
      rw [List.getElem?_concat_length, List.getElem?_eq_none le_rfl]
      exact le_rfl
    · rw [List.getElem?_eq_none (by rw [List.length_append, List.length_singleton]; exact hgt),
        List.getElem?_eq_none hgt.le]
  | move other m =>
    obtain ⟨c, hc, h⟩ := Option.bind_eq_some_iff.mp h
    obtain ⟨⟨c', act⟩, hmove, rfl⟩ := Option.map_eq_some_iff.mp h
    have heffort := move_effort hmove
    by_cases heq : other = call
    · subst heq
      have hlt := (List.getElem?_eq_some_iff.mp hc).1
      simp only [Act.ownOf, decide_true, Bool.true_and, Server.effort, hc,
        List.getElem?_set_self hlt, Option.elim_some]
      exact heffort
    · simp only [Act.ownOf, heq, decide_false, Bool.false_and, Bool.false_eq_true, if_false,
        Nat.add_zero, Server.effort, List.getElem?_set_ne heq]
      exact le_rfl

theorem run_effort {as : List (Act T)} (hrun : Runs.run step s as = some s') (call : ℕ) :
    s'.effort call + as.countP (Act.ownOf call) ≤ s.effort call := by
  induction as generalizing s with
  | nil =>
    cases hrun
    exact le_rfl
  | cons a as ih =>
    obtain ⟨t, hstep, hrest⟩ := Runs.run_cons_iff.mp hrun
    have hhead := step_effort hstep call
    have htail := ih hrest
    rw [List.countP_cons]
    omega

/-- Neither a stuck worker nor a silent client keeps a call from its answer. -/
theorem calls_come_to_an_end {as : List (Act T)} (hrun : Runs.run step (idle T) as = some s)
    (hfew : s.calls.length ≤ 2 ^ 64) (call : ℕ) :
    as.countP (Act.ownOf call) ≤ 8 ∧
      ∀ c, s.calls[call]? = some c → c.point.done = false →
        ∃ m : Move T, m.own = true ∧ (step s (.move call m)).isSome = true := by
  refine ⟨?_, fun c hc hdone => ?_⟩
  · have heffort : s.effort call + as.countP (Act.ownOf call) ≤ 8 := run_effort hrun call
    omega
  · have h := run_coherent hrun hfew
    obtain ⟨m, hown, hsome⟩ :=
      (h.kept c (List.mem_of_getElem? hc)).1.can_move hdone s.history.inner
    refine ⟨m, hown, ?_⟩
    rw [step, hc, Option.bind_some, Option.isSome_map]
    exact hsome

/- The worker of the second call holds a sender and never answers. -/
theorem calls_come_to_an_end_stuck :
    ∃ s, Runs.run step (idle Unit) (twoCalls.take 13) = some s ∧
      ∃ m : Move Unit, m.own = true ∧ (step s (.move 1 m)).isSome = true := by
  have hrun : (Runs.run step (idle Unit) (twoCalls.take 13)).any (fun s =>
      decide (s.calls.length = 2) && s.calls[1]?.any fun c => !c.point.done) = true := by
    decide +kernel
  obtain ⟨s, hs, hfacts⟩ := (Option.any_eq_true _ _).mp hrun
  rw [Bool.and_eq_true] at hfacts
  obtain ⟨c, hc, hdone⟩ := (Option.any_eq_true _ _).mp hfacts.2
  have hlength : s.calls.length = 2 := of_decide_eq_true hfacts.1
  obtain ⟨m, hown, hstep⟩ :=
    (calls_come_to_an_end hs (by omega) 1).2 c hc (by simpa using hdone)
  exact ⟨s, hs, m, hown, hstep⟩

end IdaHeadless.Foreground
