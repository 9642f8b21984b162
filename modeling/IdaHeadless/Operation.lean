import IdaHeadless.Runs
import Mathlib.Algebra.Group.Nat.Defs
import Mathlib.Data.Nat.Notation
import Mathlib.Tactic.Common

/-!
# The history of foreground operations (server/operation.rs)

The registry keeps the unfinished operations, the id of the one that was started or made
progress last, and the last twenty events. `recent` shows the operation of that id and the
events, newest first.

The registry is behind one mutex, so each call is one step. `vibrev_kit::page::capped`
turns the limit of a request into a number; it is a parameter.
-/

namespace IdaHeadless.Operation

def recentEventCap : ℕ := 20
def maxRecentLimit : ℕ := 50

/-! ### Operations -/

inductive OperationStatus where
  | queued
  | running
  | completed
  | failed
  | timedOut
  | cancelled
  deriving DecidableEq

structure OperationSnapshot where
  opId : String
  tool : String
  targetSummary : String
  phase : String
  status : OperationStatus
  message : String
  startedAtMs : ℕ
  lastUpdateMs : ℕ
  elapsedMs : ℕ
  deriving DecidableEq

structure OperationEvent where
  opId : String
  tool : String
  targetSummary : String
  phase : String
  status : OperationStatus
  message : String
  timestampMs : ℕ
  elapsedMs : ℕ
  deriving DecidableEq

structure RecentOperations where
  activeOperation : Option OperationSnapshot
  recentEvents : List OperationEvent
  total : ℕ

structure OperationState where
  opId : String
  tool : String
  targetSummary : String
  phase : String
  status : OperationStatus
  message : String
  startedAt : ℕ
  startedAtMs : ℕ
  lastUpdateMs : ℕ
  deriving DecidableEq

/- What a call reads: `now_ms`, and the monotonic clock in milliseconds. -/
structure Clock where
  nowMs : ℕ
  instant : ℕ

/- `started_at.elapsed().as_millis() as u64`. -/
def OperationState.elapsedMs (state : OperationState) (clock : Clock) : ℕ :=
  (clock.instant - state.startedAt) % 2 ^ 64

def OperationState.snapshot (state : OperationState) (clock : Clock) : OperationSnapshot :=
  ⟨state.opId, state.tool, state.targetSummary, state.phase, state.status, state.message,
    state.startedAtMs, state.lastUpdateMs, state.elapsedMs clock⟩

def OperationState.event (state : OperationState) (clock : Clock) : OperationEvent :=
  ⟨state.opId, state.tool, state.targetSummary, state.phase, state.status, state.message,
    state.lastUpdateMs, state.elapsedMs clock⟩

/-! ### The registry -/

structure OperationRegistryInner where
  activeOpId : Option String
  current : List OperationState
  events : List OperationEvent

/- The front of the queue is the head of the list. -/
def pushEvent (events : List OperationEvent) (event : OperationEvent) : List OperationEvent :=
  (if events.length = recentEventCap then events.tail else events) ++ [event]

def getCurrent (current : List OperationState) (opId : String) : Option OperationState :=
  current.find? fun state => state.opId = opId

def removeCurrent (current : List OperationState) (opId : String) : List OperationState :=
  current.filter fun state => state.opId ≠ opId

def queuedState (clock : Clock) (opId tool targetSummary : String) : OperationState :=
  ⟨opId, tool, targetSummary, "queued", .queued, "Queued for IDA worker execution", clock.instant,
    clock.nowMs, clock.nowMs⟩

def start (inner : OperationRegistryInner) (clock : Clock) (opId tool targetSummary : String) :
    OperationRegistryInner :=
  let state := queuedState clock opId tool targetSummary
  ⟨some opId, state :: removeCurrent inner.current opId, pushEvent inner.events (state.event clock)⟩

def progressedState (state : OperationState) (clock : Clock) (phase message : String) :
    OperationState :=
  { state with phase := phase, status := .running, message := message, lastUpdateMs := clock.nowMs }

def recordProgress (inner : OperationRegistryInner) (clock : Clock) (opId phase message : String) :
    Option OperationSnapshot × OperationRegistryInner :=
  match getCurrent inner.current opId with
  | none => (none, inner)
  | some state =>
    let state := progressedState state clock phase message
    (some (state.snapshot clock),
      ⟨some opId, inner.current.map fun old => if old.opId = opId then state else old,
        pushEvent inner.events (state.event clock)⟩)

/- An operation that never ran ends in the phase of its status. -/
def finishedPhase (phase : String) : OperationStatus → String
  | .completed => "completed"
  | .failed => "failed"
  | .timedOut => "timed_out"
  | .cancelled => "cancelled"
  | .queued | .running => phase

def finishedState (state : OperationState) (clock : Clock) (status : OperationStatus)
    (message : String) : OperationState :=
  { state with
    status := status
    message := message
    lastUpdateMs := clock.nowMs
    phase := if state.phase = "queued" then finishedPhase state.phase status else state.phase }

def finish (inner : OperationRegistryInner) (clock : Clock) (opId : String)
    (status : OperationStatus) (message : String) :
    Option OperationSnapshot × OperationRegistryInner :=
  match getCurrent inner.current opId with
  | none => (none, inner)
  | some state =>
    let state := finishedState state clock status message
    (some (state.snapshot clock),
      ⟨if inner.activeOpId = some opId then none else inner.activeOpId,
        removeCurrent inner.current opId, pushEvent inner.events (state.event clock)⟩)

/- The callers of `finish`: `finish_completed` and the other three. -/
inductive Ending where
  | completed
  | failed
  | timedOut
  | cancelled
  deriving DecidableEq

def Ending.status : Ending → OperationStatus
  | .completed => .completed
  | .failed => .failed
  | .timedOut => .timedOut
  | .cancelled => .cancelled

def recent (capped : Option Int → ℕ → ℕ → ℕ) (inner : OperationRegistryInner) (clock : Clock)
    (limit : Option Int) : RecentOperations where
  activeOperation :=
    (inner.activeOpId.bind fun opId => getCurrent inner.current opId).map fun state =>
      state.snapshot clock
  recentEvents := inner.events.reverse.take (capped limit recentEventCap maxRecentLimit)
  total := inner.events.length

/-! ### Runs -/

inductive Act where
  | start (clock : Clock) (opId tool targetSummary : String)
  | progress (clock : Clock) (opId phase message : String)
  | finish (clock : Clock) (opId : String) (ending : Ending) (message : String)

/- The registry and its history: all events in the order they were recorded, the ids of all
operations, and of those that have not finished. -/
structure World where
  inner : OperationRegistryInner
  log : List OperationEvent
  started : List String
  unfinished : List String

/- The event a call records, if any. -/
def World.recorded (w : World) : Act → Option OperationEvent
  | .start clock opId tool targetSummary =>
    some ((queuedState clock opId tool targetSummary).event clock)
  | .progress clock opId phase message =>
    (getCurrent w.inner.current opId).map fun state =>
      (progressedState state clock phase message).event clock
  | .finish clock opId ending message =>
    (getCurrent w.inner.current opId).map fun state =>
      (finishedState state clock ending.status message).event clock

def World.called (w : World) : Act → OperationRegistryInner
  | .start clock opId tool targetSummary => start w.inner clock opId tool targetSummary
  | .progress clock opId phase message => (recordProgress w.inner clock opId phase message).2
  | .finish clock opId ending message => (finish w.inner clock opId ending.status message).2

/- Operations have distinct ids: `next_operation_id` counts them. -/
def step (w : World) (act : Act) : Option World :=
  match act with
  | .start _ opId _ _ =>
    if opId ∈ w.started then none
    else some ⟨w.called act, w.log ++ (w.recorded act).toList, opId :: w.started,
      opId :: w.unfinished⟩
  | .progress .. => some { w with inner := w.called act, log := w.log ++ (w.recorded act).toList }
  | .finish _ opId _ _ =>
    some { w with
      inner := w.called act
      log := w.log ++ (w.recorded act).toList
      unfinished := w.unfinished.filter fun id => id ≠ opId }

def empty : World := ⟨⟨none, [], []⟩, [], [], []⟩

/-! ### The invariant -/

variable {w w' : World} {act : Act} {op : String} {e : OperationEvent} {state : OperationState}

def OperationStatus.terminal : OperationStatus → Bool
  | .queued | .running => false
  | .completed | .failed | .timedOut | .cancelled => true

def Act.opId : Act → String
  | .start _ opId _ _ | .progress _ opId _ _ | .finish _ opId _ _ => opId

/- The operations of the registry are the unfinished ones, and the active one is among them.
The queue holds the end of the log, in which nothing of an operation follows a terminal
event. -/
structure Inv (w : World) : Prop where
  ids : w.inner.current.map (fun state => state.opId) = w.unfinished
  active : ∀ id ∈ w.inner.activeOpId, id ∈ w.unfinished
  started : ∀ id ∈ w.unfinished, id ∈ w.started
  events : w.inner.events = w.log.drop (w.log.length - recentEventCap)
  known : ∀ e ∈ w.log, e.opId ∈ w.started
  finished : ∀ e ∈ w.log, e.status.terminal = true → e.opId ∉ w.unfinished
  last : w.log.Pairwise fun e e' => e.status.terminal = true → e'.opId ≠ e.opId

theorem pushEvent_drop (log : List OperationEvent) (e : OperationEvent) :
    pushEvent (log.drop (log.length - recentEventCap)) e =
      (log ++ [e]).drop ((log ++ [e]).length - recentEventCap) := by
  have hlength : (log.drop (log.length - recentEventCap)).length =
      min log.length recentEventCap := by
    rw [List.length_drop]
    omega
  unfold pushEvent
  by_cases hfull : recentEventCap ≤ log.length
  · have hdrop : (log ++ [e]).length - recentEventCap = log.length - recentEventCap + 1 := by
      rw [List.length_append, List.length_singleton]
      omega
    have hle : log.length - recentEventCap + 1 ≤ log.length := by
      have hpos : 0 < recentEventCap := by decide
      omega
    rw [if_pos (by omega), List.tail_drop, hdrop, List.drop_append_of_le_length hle]
  · have hzero : log.length - recentEventCap = 0 := by omega
    have hzero' : (log ++ [e]).length - recentEventCap = 0 := by
      rw [List.length_append, List.length_singleton]
      omega
    rw [if_neg (by omega), hzero, hzero', List.drop_zero, List.drop_zero]

/- An operation is found as long as it has not finished. -/
theorem Inv.getCurrent_isSome (hI : Inv w) :
    (getCurrent w.inner.current op).isSome ↔ op ∈ w.unfinished := by
  rw [getCurrent, List.find?_isSome, ← hI.ids, List.mem_map]
  simp

theorem Inv.found (hI : Inv w) (h : getCurrent w.inner.current op = some state) :
    state.opId = op ∧ state.opId ∈ w.unfinished := by
  have hid : state.opId = op := by simpa using List.find?_some h
  refine ⟨hid, ?_⟩
  rw [hid, ← hI.getCurrent_isSome, h]
  rfl

theorem called_events (w : World) (act : Act) :
    (w.called act).events = (w.recorded act).elim w.inner.events (pushEvent w.inner.events) := by
  cases act with
  | start clock opId tool targetSummary => rfl
  | progress clock opId phase message =>
    simp only [World.called, World.recorded, recordProgress]
    cases getCurrent w.inner.current opId with
    | none => rfl
    | some state => rfl
  | finish clock opId ending message =>
    simp only [World.called, World.recorded, finish]
    cases getCurrent w.inner.current opId with
    | none => rfl
    | some state => rfl

/- The queue follows the log. -/
theorem Inv.called_log (hI : Inv w) (act : Act) :
    (w.called act).events = (w.log ++ (w.recorded act).toList).drop
      ((w.log ++ (w.recorded act).toList).length - recentEventCap) := by
  rw [called_events]
  cases w.recorded act with
  | none => simpa using hI.events
  | some e =>
    have hpush := pushEvent_drop w.log e
    rw [← hI.events] at hpush
    exact hpush

/- An event is about the operation of the call. After the start it is recorded only while the
operation is unfinished. -/
theorem Inv.recorded_opId (hI : Inv w) (h : w.recorded act = some e) :
    e.opId = act.opId ∧ ((∃ clock tool target, act = .start clock e.opId tool target) ∨
      e.opId ∈ w.unfinished) := by
  cases act with
  | start clock opId tool targetSummary =>
    cases h
    exact ⟨rfl, Or.inl ⟨clock, tool, targetSummary, rfl⟩⟩
  | progress clock opId phase message =>
    obtain ⟨state, hstate, rfl⟩ := Option.map_eq_some_iff.mp h
    obtain ⟨hid, hunfinished⟩ := hI.found hstate
    exact ⟨hid, Or.inr hunfinished⟩
  | finish clock opId ending message =>
    obtain ⟨state, hstate, rfl⟩ := Option.map_eq_some_iff.mp h
    obtain ⟨hid, hunfinished⟩ := hI.found hstate
    exact ⟨hid, Or.inr hunfinished⟩

theorem mem_log_recorded (h : e ∈ w.log ++ (w.recorded act).toList) :
    e ∈ w.log ∨ w.recorded act = some e := by
  rcases List.mem_append.mp h with hold | hnew
  · exact Or.inl hold
  · exact Or.inr (Option.mem_toList.mp hnew)

/- Nothing is recorded for an operation that has a terminal event. -/
theorem Inv.last_recorded (hI : Inv w)
    (hnew : ∀ clock id tool target, act = .start clock id tool target → id ∉ w.started) :
    (w.log ++ (w.recorded act).toList).Pairwise fun e e' =>
      e.status.terminal = true → e'.opId ≠ e.opId := by
  rw [List.pairwise_append]
  refine ⟨hI.last, ?_, ?_⟩
  · cases w.recorded act with
    | none => exact List.Pairwise.nil
    | some e => exact List.pairwise_singleton _ e
  · intro e he e' he' hterminal heq
    rw [Option.mem_toList] at he'
    rcases (hI.recorded_opId he').2 with ⟨clock, tool, target, hstart⟩ | hunfinished
    · rw [heq] at hstart
      exact hnew _ _ _ _ hstart (hI.known e he)
    · rw [heq] at hunfinished
      exact hI.finished e he hterminal hunfinished

theorem removeCurrent_ids (current : List OperationState) (op : String) :
    (removeCurrent current op).map (fun state => state.opId) =
      (current.map fun state => state.opId).filter fun id => id ≠ op := by
  rw [removeCurrent, List.filter_map]
  rfl

theorem filter_ne_of_not_mem {ids : List String} (h : op ∉ ids) :
    ids.filter (fun id => id ≠ op) = ids := by
  rw [List.filter_eq_self]
  intro id hid
  have hne : id ≠ op := by
    rintro rfl
    exact h hid
  simpa using hne

theorem start_inv {clock : Clock} {tool target : String} (hI : Inv w) (hnew : op ∉ w.started) :
    Inv ⟨w.called (.start clock op tool target),
      w.log ++ (w.recorded (.start clock op tool target)).toList, op :: w.started,
      op :: w.unfinished⟩ := by
  have hnot : op ∉ w.unfinished := fun h => hnew (hI.started op h)
  refine ⟨?_, ?_, ?_, hI.called_log _, ?_, ?_, ?_⟩
  · show op :: (removeCurrent w.inner.current op).map (fun state => state.opId) = op :: w.unfinished
    rw [removeCurrent_ids, hI.ids, filter_ne_of_not_mem hnot]
  · intro id hid
    cases hid
    exact List.mem_cons_self
  · intro id hid
    rcases List.mem_cons.mp hid with rfl | hold
    · exact List.mem_cons_self
    · exact List.mem_cons_of_mem op (hI.started id hold)
  · intro e he
    rcases mem_log_recorded he with hold | hrecorded
    · exact List.mem_cons_of_mem op (hI.known e hold)
    · rw [(hI.recorded_opId hrecorded).1]
      exact List.mem_cons_self
  · intro e he hterminal hmem
    rcases mem_log_recorded he with hold | hrecorded
    · rcases List.mem_cons.mp hmem with heq | hunfinished
      · rw [← heq] at hnew
        exact hnew (hI.known e hold)
      · exact hI.finished e hold hterminal hunfinished
    · cases hrecorded
      cases hterminal
  · apply hI.last_recorded
    intro clock id tool target hact
    cases hact
    exact hnew

/- Progress changes neither the operations nor whether they are finished. -/
theorem recordProgress_ids (hI : Inv w) (clock : Clock) (op phase message : String) :
    (recordProgress w.inner clock op phase message).2.current.map (fun state => state.opId) =
        w.unfinished ∧
      ∀ id ∈ (recordProgress w.inner clock op phase message).2.activeOpId, id ∈ w.unfinished := by
  unfold recordProgress
  cases hstate : getCurrent w.inner.current op with
  | none => exact ⟨hI.ids, hI.active⟩
  | some state =>
    obtain ⟨hid, hunfinished⟩ := hI.found hstate
    refine ⟨?_, ?_⟩
    · rw [← hI.ids]
      simp only [List.map_map]
      apply List.map_congr_left
      intro old _
      by_cases hold : old.opId = op
      · simp [hold, progressedState, hid]
      · simp [hold]
    · intro id hid'
      cases hid'
      rw [← hid]
      exact hunfinished

theorem progress_inv {clock : Clock} {phase message : String} (hI : Inv w) :
    Inv { w with
      inner := w.called (.progress clock op phase message)
      log := w.log ++ (w.recorded (.progress clock op phase message)).toList } := by
  obtain ⟨hids, hactive⟩ := recordProgress_ids hI clock op phase message
  refine ⟨hids, hactive, hI.started, hI.called_log _, ?_, ?_, ?_⟩
  · intro e he
    rcases mem_log_recorded he with hold | hrecorded
    · exact hI.known e hold
    · obtain ⟨state, hstate, rfl⟩ := Option.map_eq_some_iff.mp hrecorded
      exact hI.started _ (hI.found hstate).2
  · intro e he hterminal
    rcases mem_log_recorded he with hold | hrecorded
    · exact hI.finished e hold hterminal
    · obtain ⟨state, hstate, rfl⟩ := Option.map_eq_some_iff.mp hrecorded
      cases hterminal
  · apply hI.last_recorded
    intro clock id tool target hact
    cases hact

theorem finish_ids (hI : Inv w) (clock : Clock) (op : String) (status : OperationStatus)
    (message : String) :
    (finish w.inner clock op status message).2.current.map (fun state => state.opId) =
        w.unfinished.filter (fun id => id ≠ op) ∧
      ∀ id ∈ (finish w.inner clock op status message).2.activeOpId,
        id ∈ w.unfinished.filter fun id => id ≠ op := by
  unfold finish
  cases hstate : getCurrent w.inner.current op with
  | none =>
    have hnot : op ∉ w.unfinished := by
      rw [← hI.getCurrent_isSome, hstate]
      nofun
    rw [filter_ne_of_not_mem hnot]
    exact ⟨hI.ids, hI.active⟩
  | some state =>
    refine ⟨?_, ?_⟩
    · rw [← hI.ids]
      exact removeCurrent_ids w.inner.current op
    · intro id hid
      dsimp only at hid
      split at hid
      · cases hid
      · rename_i hother
        have hne : id ≠ op := by
          rintro rfl
          exact hother hid
        rw [List.mem_filter]
        exact ⟨hI.active id hid, by simpa using hne⟩

theorem finish_inv {clock : Clock} {ending : Ending} {message : String} (hI : Inv w) :
    Inv { w with
      inner := w.called (.finish clock op ending message)
      log := w.log ++ (w.recorded (.finish clock op ending message)).toList
      unfinished := w.unfinished.filter fun id => id ≠ op } := by
  obtain ⟨hids, hactive⟩ := finish_ids hI clock op ending.status message
  refine ⟨hids, hactive, ?_, hI.called_log _, ?_, ?_, ?_⟩
  · intro id hid
    exact hI.started id (List.mem_filter.mp hid).1
  · intro e he
    rcases mem_log_recorded he with hold | hrecorded
    · exact hI.known e hold
    · obtain ⟨state, hstate, rfl⟩ := Option.map_eq_some_iff.mp hrecorded
      exact hI.started _ (hI.found hstate).2
  · intro e he hterminal hmem
    obtain ⟨hunfinished, hne⟩ := List.mem_filter.mp hmem
    rcases mem_log_recorded he with hold | hrecorded
    · exact hI.finished e hold hterminal hunfinished
    · have hid : e.opId = op := (hI.recorded_opId hrecorded).1
      simp [hid] at hne
  · apply hI.last_recorded
    intro clock id tool target hact
    cases hact

theorem step_inv (hI : Inv w) (h : step w act = some w') : Inv w' := by
  cases act with
  | start clock op tool target =>
    simp only [step] at h
    split at h
    · cases h
    · rename_i hnew
      cases h
      exact start_inv hI hnew
  | progress clock op phase message =>
    cases h
    exact progress_inv hI
  | finish clock op ending message =>
    cases h
    exact finish_inv hI

theorem empty_inv : Inv empty :=
  ⟨rfl, nofun, nofun, rfl, nofun, nofun, List.Pairwise.nil⟩

/-! ### The active operation -/

/- The operation in the active slot finishes only as the last unfinished one. -/
def FinishesLast (w : World) : Act → Prop
  | .finish _ opId _ _ => w.inner.activeOpId = some opId → ∀ id ∈ w.unfinished, id = opId
  | _ => True

instance (w : World) : ∀ act, Decidable (FinishesLast w act)
  | .finish _ opId _ _ =>
    inferInstanceAs (Decidable (w.inner.activeOpId = some opId → ∀ id ∈ w.unfinished, id = opId))
  | .start .. | .progress .. => isTrue trivial

/- The slot is empty only when nothing is unfinished. -/
def SlotFilled (w : World) : Prop := w.inner.activeOpId = none → w.unfinished = []

theorem step_slotFilled (hs : SlotFilled w) (hcond : FinishesLast w act)
    (h : step w act = some w') : SlotFilled w' := by
  cases act with
  | start clock op tool target =>
    simp only [step] at h
    split at h
    · cases h
    · cases h
      nofun
  | progress clock op phase message =>
    cases h
    intro hnone
    simp only [World.called, recordProgress] at hnone
    split at hnone
    · exact hs hnone
    · cases hnone
  | finish clock op ending message =>
    cases h
    intro hnone
    simp only [World.called, finish] at hnone
    rw [List.filter_eq_nil_iff]
    intro id hid
    split at hnone
    · rw [hs hnone] at hid
      cases hid
    · dsimp only at hnone
      split at hnone
      · rename_i hactive
        simpa using hcond hactive id hid
      · rw [hs hnone] at hid
        cases hid

theorem Inv.active_unfinished (hI : Inv w) {capped : Option Int → ℕ → ℕ → ℕ} {clock : Clock}
    {limit : Option Int} {op : OperationSnapshot}
    (h : (recent capped w.inner clock limit).activeOperation = some op) :
    op.opId ∈ w.unfinished := by
  obtain ⟨state, hstate, rfl⟩ := Option.map_eq_some_iff.mp h
  obtain ⟨id, -, hcurrent⟩ := Option.bind_eq_some_iff.mp hstate
  exact (hI.found hcurrent).2

theorem Inv.active_isSome (hI : Inv w) (hs : SlotFilled w) (capped : Option Int → ℕ → ℕ → ℕ)
    (clock : Clock) (limit : Option Int) :
    (recent capped w.inner clock limit).activeOperation.isSome ↔ w.unfinished ≠ [] := by
  constructor
  · intro hsome
    obtain ⟨op, hop⟩ := Option.isSome_iff_exists.mp hsome
    exact List.ne_nil_of_mem (hI.active_unfinished hop)
  · intro hne
    cases hactive : w.inner.activeOpId with
    | none => exact absurd (hs hactive) hne
    | some id =>
      have hfound : (getCurrent w.inner.current id).isSome :=
        hI.getCurrent_isSome.mpr (hI.active id hactive)
      simpa [recent, hactive] using hfound

/-- In every run the history is bounded and newest first, the active operation is unfinished,
and nothing of an operation follows its terminal event. In the runs where the operation in
the slot finishes last, an unfinished operation is shown as long as there is one. -/
theorem operation_registry {as : List Act} (hrun : Runs.run step empty as = some w)
    (capped : Option Int → ℕ → ℕ → ℕ) (clock : Clock) (limit : Option Int) :
    (Runs.Along step FinishesLast empty as →
      ((recent capped w.inner clock limit).activeOperation.isSome ↔ w.unfinished ≠ [])) ∧
    (∀ op, (recent capped w.inner clock limit).activeOperation = some op →
      op.opId ∈ w.unfinished) ∧
    w.inner.events.length ≤ recentEventCap ∧
    (recent capped w.inner clock limit).recentEvents =
      (w.log.reverse.take recentEventCap).take (capped limit recentEventCap maxRecentLimit) ∧
    w.log.Pairwise (fun e e' => e.status.terminal = true → e'.opId ≠ e.opId) := by
  have hI : Inv w := Runs.run_inv Inv (fun _ _ _ hI h => step_inv hI h) empty_inv hrun
  refine ⟨?_, fun op hop => hI.active_unfinished hop, ?_, ?_, hI.last⟩
  · intro hcond
    have hs : SlotFilled w :=
      Runs.run_inv_along SlotFilled (fun _ _ _ hs hcond h => step_slotFilled hs hcond h)
        (fun _ => rfl) hcond hrun
    exact hI.active_isSome hs capped clock limit
  · rw [hI.events, List.length_drop]
    omega
  · have hreverse : w.inner.events.reverse = w.log.reverse.take recentEventCap := by
      rw [hI.events, List.take_reverse]
    exact congrArg (List.take _) hreverse

/- Two operations; the one that was started first finishes last. -/
def nested : List Act :=
  [.start ⟨0, 0⟩ "a" "run_script" "", .start ⟨1, 1⟩ "b" "run_script" "",
    .finish ⟨2, 2⟩ "a" .completed "", .progress ⟨3, 3⟩ "b" "executing" ""]

theorem operation_registry_nested :
    ∃ w, Runs.run step empty nested = some w ∧ w.unfinished = ["b"] ∧
      (recent (fun _ default _ => default) w.inner ⟨4, 4⟩ none).activeOperation.isSome := by
  have hrun : (Runs.run step empty nested).any (fun w => decide (w.unfinished = ["b"])) = true := by
    decide +kernel
  have hcond : Runs.Along step FinishesLast empty nested := by decide +kernel
  obtain ⟨w, hw, hfacts⟩ := (Option.any_eq_true _ _).mp hrun
  have hids : w.unfinished = ["b"] := of_decide_eq_true hfacts
  have hiff := (operation_registry hw (fun _ default _ => default) ⟨4, 4⟩ none).1 hcond
  refine ⟨w, hw, hids, hiff.mpr ?_⟩
  rw [hids]
  nofun

/- The operation that was started last finishes first: the other one is not shown. -/
theorem unfinished_not_active :
    ∃ w, Runs.run step empty [.start ⟨0, 0⟩ "a" "open_idb" "", .start ⟨1, 1⟩ "b" "open_idb" "",
        .finish ⟨2, 2⟩ "b" .completed ""] = some w ∧ w.unfinished = ["a"] ∧
      ∀ capped clock limit, (recent capped w.inner clock limit).activeOperation = none := by
  have hrun : (Runs.run step empty [.start ⟨0, 0⟩ "a" "open_idb" "",
      .start ⟨1, 1⟩ "b" "open_idb" "", .finish ⟨2, 2⟩ "b" .completed ""]).any (fun w =>
        decide (w.unfinished = ["a"] ∧ w.inner.activeOpId = none)) = true := by
    decide +kernel
  obtain ⟨w, hw, hfacts⟩ := (Option.any_eq_true _ _).mp hrun
  obtain ⟨hids, hactive⟩ := of_decide_eq_true hfacts
  refine ⟨w, hw, hids, ?_⟩
  intro capped clock limit
  simp [recent, hactive]

end IdaHeadless.Operation
