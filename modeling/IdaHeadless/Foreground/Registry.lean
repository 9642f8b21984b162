import IdaHeadless.Foreground.Step

/-!
# The trail of an operation

What the registry's history tells about one operation: its events without their times. A call of
the registry for one operation changes nothing of another's.
-/

namespace IdaHeadless.Operation

/-- An event, a snapshot or a state without the times. -/
structure Mark where
  opId : String
  tool : String
  targetSummary : String
  phase : String
  status : OperationStatus
  message : String
  deriving DecidableEq

def OperationEvent.mark (e : OperationEvent) : Mark :=
  ⟨e.opId, e.tool, e.targetSummary, e.phase, e.status, e.message⟩

def OperationSnapshot.mark (s : OperationSnapshot) : Mark :=
  ⟨s.opId, s.tool, s.targetSummary, s.phase, s.status, s.message⟩

def OperationState.mark (s : OperationState) : Mark :=
  ⟨s.opId, s.tool, s.targetSummary, s.phase, s.status, s.message⟩

end IdaHeadless.Operation

namespace IdaHeadless.Foreground

open Operation

variable {history : Operation.World} {act : Operation.Act} {id : String} {state : OperationState}
  {clock : Clock}

/-- What the log tells about an operation, oldest first. -/
def trail (log : List OperationEvent) (id : String) : List Mark :=
  (log.filter fun e => e.opId = id).map OperationEvent.mark

theorem trail_append (log events : List OperationEvent) (id : String) :
    trail (log ++ events) id = trail log id ++ trail events id := by
  rw [trail, List.filter_append, List.map_append]
  rfl

theorem getCurrent_opId {current : List OperationState} (h : getCurrent current id = some state) :
    state.opId = id := by
  simpa using List.find?_some h

theorem recorded_opId {e : OperationEvent} (h : history.recorded act = some e) :
    e.opId = act.opId := by
  cases act with
  | start clock opId tool targetSummary =>
    cases h
    rfl
  | progress clock opId phase message =>
    obtain ⟨state, hstate, rfl⟩ := Option.map_eq_some_iff.mp h
    have hid : state.opId = opId := getCurrent_opId hstate
    exact hid
  | finish clock opId ending message =>
    obtain ⟨state, hstate, rfl⟩ := Option.map_eq_some_iff.mp h
    have hid : state.opId = opId := getCurrent_opId hstate
    exact hid

theorem trail_advance (history : Operation.World) (act : Operation.Act) (id : String) :
    trail (advance history act).log id =
      trail history.log id ++ trail (history.recorded act).toList id :=
  trail_append _ _ _

theorem trail_advance_other (h : act.opId ≠ id) :
    trail (advance history act).log id = trail history.log id := by
  rw [trail_advance]
  cases hrecorded : history.recorded act with
  | none => exact List.append_nil _
  | some e =>
    have hne : e.opId ≠ id := by
      rw [recorded_opId hrecorded]
      exact h
    simp [trail, hne]

/-! ### The operation that the registry holds -/

theorem getCurrent_removeCurrent {current : List OperationState} {opId : String} (h : opId ≠ id) :
    getCurrent (removeCurrent current opId) id = getCurrent current id := by
  have hsame : (fun s : OperationState => decide (s.opId ≠ opId ∧ s.opId = id)) =
      fun s => decide (s.opId = id) := by
    funext s
    by_cases hs : s.opId = id
    · simp [hs, h.symm]
    · simp [hs]
  rw [getCurrent, removeCurrent, List.find?_filter]
  simpa [getCurrent] using congrArg (fun p => List.find? p current) hsame

theorem getCurrent_removed (current : List OperationState) (id : String) :
    getCurrent (removeCurrent current id) id = none := by
  rw [getCurrent, List.find?_eq_none]
  intro state hstate
  simpa using (List.mem_filter.mp hstate).2

theorem getCurrent_map {current : List OperationState} {opId : String} (hstate : state.opId = opId)
    (id : String) :
    getCurrent (current.map fun old => if old.opId = opId then state else old) id =
      (getCurrent current id).map fun old => if old.opId = opId then state else old := by
  have hsame : ((fun s : OperationState => decide (s.opId = id)) ∘ fun old =>
      if old.opId = opId then state else old) = fun s => decide (s.opId = id) := by
    funext old
    by_cases hold : old.opId = opId
    · simp [hold, hstate]
    · simp [hold]
  rw [getCurrent, List.find?_map, hsame]
  rfl

theorem getCurrent_advance_other (h : act.opId ≠ id) :
    getCurrent (advance history act).inner.current id = getCurrent history.inner.current id := by
  cases act with
  | start clock opId tool targetSummary =>
    change (queuedState clock opId tool targetSummary ::
        removeCurrent history.inner.current opId).find?
      (fun s => s.opId = id) = _
    have hopId : opId ≠ id := h
    rw [List.find?_cons_of_neg (by simp [queuedState, hopId])]
    exact getCurrent_removeCurrent hopId
  | progress clock opId phase message =>
    have hopId : opId ≠ id := h
    change getCurrent (recordProgress history.inner clock opId phase message).2.current id = _
    unfold recordProgress
    cases hstate : getCurrent history.inner.current opId with
    | none => rfl
    | some state =>
      have hid : state.opId = opId := getCurrent_opId hstate
      have hprogressed : (progressedState state clock phase message).opId = opId := hid
      dsimp only
      rw [getCurrent_map hprogressed]
      cases hid : getCurrent history.inner.current id with
      | none => rfl
      | some other =>
        have hne : other.opId ≠ opId := by
          rw [getCurrent_opId hid]
          exact hopId.symm
        rw [Option.map_some, if_neg hne]
  | finish clock opId ending message =>
    change getCurrent (finish history.inner clock opId ending.status message).2.current id = _
    unfold finish
    cases getCurrent history.inner.current opId with
    | none => rfl
    | some state => exact getCurrent_removeCurrent h

theorem started_advance_other (h : act.opId ≠ id) :
    id ∈ (advance history act).started ↔ id ∈ history.started := by
  cases act with
  | start clock opId tool targetSummary =>
    have hne : id ≠ opId := fun heq => h heq.symm
    simp [advance, hne]
  | progress | finish => rfl

/-! ### The calls of the registry -/

theorem start_trail (history : Operation.World) (clock : Clock) (id tool target : String) :
    getCurrent (advance history (.start clock id tool target)).inner.current id =
        some (queuedState clock id tool target) ∧
      trail (advance history (.start clock id tool target)).log id =
        trail history.log id ++ [(queuedState clock id tool target).mark] := by
  refine ⟨List.find?_cons_of_pos (by simp [queuedState]), ?_⟩
  rw [trail_advance]
  simp [trail, World.recorded, OperationState.event, OperationEvent.mark, OperationState.mark,
    queuedState]

theorem progress_trail (hstate : getCurrent history.inner.current id = some state)
    (clock : Clock) (phase message : String) :
    getCurrent (advance history (.progress clock id phase message)).inner.current id =
        some (progressedState state clock phase message) ∧
      trail (advance history (.progress clock id phase message)).log id =
        trail history.log id ++ [(progressedState state clock phase message).mark] := by
  have hid := getCurrent_opId hstate
  constructor
  · change getCurrent (recordProgress history.inner clock id phase message).2.current id = _
    simp only [recordProgress, hstate]
    rw [getCurrent_map (show (progressedState state clock phase message).opId = id from hid),
      hstate, Option.map_some, if_pos hid]
  · rw [trail_advance]
    simp [trail, World.recorded, hstate, progressedState, OperationState.event, hid,
      OperationEvent.mark, OperationState.mark]

theorem finish_trail (hstate : getCurrent history.inner.current id = some state) (clock : Clock)
    (ending : Ending) (message : String) :
    (finish history.inner clock id ending.status message).1 =
        some ((finishedState state clock ending.status message).snapshot clock) ∧
      getCurrent (advance history (.finish clock id ending message)).inner.current id = none ∧
      trail (advance history (.finish clock id ending message)).log id =
        trail history.log id ++ [(finishedState state clock ending.status message).mark] := by
  have hid := getCurrent_opId hstate
  refine ⟨?_, ?_, ?_⟩
  · simp only [finish, hstate]
  · change getCurrent (finish history.inner clock id ending.status message).2.current id = none
    simp only [finish, hstate]
    exact getCurrent_removed _ id
  · rw [trail_advance]
    simp [trail, World.recorded, hstate, finishedState, OperationState.event, hid,
      OperationEvent.mark, OperationState.mark]

/- A late update is lost. -/
theorem progress_lost (h : getCurrent history.inner.current id = none) (clock : Clock)
    (phase message : String) :
    getCurrent (advance history (.progress clock id phase message)).inner.current id = none ∧
      trail (advance history (.progress clock id phase message)).log id = trail history.log id := by
  constructor
  · change getCurrent (recordProgress history.inner clock id phase message).2.current id = none
    simp only [recordProgress, h]
  · rw [trail_advance]
    simp [trail, World.recorded, h]

/- An operation that is not known yet may start; every other call is taken. -/
theorem step_advance (hnew : ∀ clock id tool target, act = .start clock id tool target →
    id ∉ history.started) : Operation.step history act = some (advance history act) := by
  cases act with
  | start clock id tool target =>
    rw [Operation.step, if_neg (hnew _ _ _ _ rfl)]
    rfl
  | progress | finish => rfl

end IdaHeadless.Foreground
