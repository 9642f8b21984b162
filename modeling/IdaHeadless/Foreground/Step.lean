import IdaHeadless.Operation
import IdaHeadless.Radix
import IdaHeadless.ToolError

/-!
# Foreground operations (server/mod.rs, run_foreground_operation)

A call of a tool starts an operation, lets a task drain the progress that the worker sends, and
waits for the operation, the client's cancellation or the timeout. Whatever comes first decides how
the operation ends in the registry and what the call answers. Every await and every call of the
registry is a step of its own, and what the worker does is up to the worker.
-/

namespace IdaHeadless.Foreground

open Operation

def maxTimeoutSecs : ℕ := 600

/-! ### Identifiers -/

/-- `{:0width$x}`. -/
def hexPadded (width n : ℕ) : List Char :=
  List.replicate (width - (Nat.toDigits 16 n).length) '0' ++ Nat.toDigits 16 n

/- The counter is an `AtomicU64`, and `nonce` counts the calls that were made of it. -/
def nextOperationId (now nonce : ℕ) : String :=
  String.ofList (['f', 'g', '-'] ++ hexPadded 16 now ++ '-' :: hexPadded 8 (nonce % 2 ^ 64))

/-! ### Calls -/

structure ProgressUpdate where
  phase : String
  message : String
  deriving DecidableEq

inductive Interruption where
  | timedOut (timeoutSecs : ℕ)
  | cancelled
  deriving DecidableEq

inductive Outcome (T : Type) where
  | finished (result : Except ToolError T)
  | interrupted (why : Interruption)

/- `ForegroundOperationError`, and the value of a call that succeeds. -/
inductive Answer (T : Type) where
  | value (value : T)
  | tool (error : ToolError)
  | timedOut (timeoutSecs : ℕ) (snapshot : OperationSnapshot)
  | cancelled (snapshot : OperationSnapshot)

/- A task that is aborted stops at its next await. -/
inductive Drain where
  | running | aborted | stopped | ended
  deriving DecidableEq

/- Where the call is: its id is drawn, `select!`, the grace of the drain, the cleanup of the
operation, `drain_task.await`, the call of the registry. -/
inductive Point (T : Type) where
  | drawn
  | selecting
  | draining (result : Except ToolError T)
  | cleaning (why : Interruption)
  | stopping (why : Interruption)
  | closing (outcome : Outcome T)
  | answered (outcome : Outcome T) (answer : Answer T)
  | dropped

/- `sent` is all that the worker has sent, and the drain has received the first `taken`. -/
structure Call (T : Type) where
  opId : String
  toolName : String
  targetSummary : String
  timeout : ℕ
  sent : List ProgressUpdate
  taken : ℕ
  senders : Bool
  drain : Drain
  ready : Option (Except ToolError T)
  clientCancelled : Bool
  elapsed : Bool
  workerCancelled : Bool
  point : Point T

def timeoutOf (timeoutSecs : Option ℕ) (defaultTimeoutSecs : ℕ) : ℕ :=
  min (timeoutSecs.getD defaultTimeoutSecs) maxTimeoutSecs

def Call.drawn (T : Type) (opId toolName targetSummary : String) (timeoutSecs : Option ℕ)
    (defaultTimeoutSecs : ℕ) : Call T :=
  ⟨opId, toolName, targetSummary, timeoutOf timeoutSecs defaultTimeoutSecs, [], 0, true, .running,
    none, false, false, false, .drawn⟩

variable {T : Type}

/-! ### Endings -/

/- What the registry is told. -/
def Outcome.ending (toolName : String) : Outcome T → Ending × String
  | .finished (.ok _) => (.completed, toolName ++ " completed successfully")
  | .finished (.error (.cancelled _)) => (.cancelled, toolName ++ " cancelled")
  | .finished (.error error) => (.failed, toolName ++ " failed: " ++ error.display)
  | .interrupted (.timedOut timeoutSecs) =>
    (.timedOut, toolName ++ " timed out after " ++ toString timeoutSecs ++ "s")
  | .interrupted .cancelled => (.cancelled, toolName ++ " cancelled by client")

def fallbackOperationSnapshot (opId toolName phase : String) (status : OperationStatus)
    (message : String) : OperationSnapshot :=
  ⟨opId, toolName, "unknown", phase, status, message, 0, 0, 0⟩

def Call.snapshot (c : Call T) (inner : OperationRegistryInner) (clock : Clock)
    (ending : Ending × String) : OperationSnapshot :=
  ((finish inner clock c.opId ending.1.status ending.2).1.or
    ((getCurrent inner.current c.opId).map fun state => state.snapshot clock)).getD
      (fallbackOperationSnapshot c.opId c.toolName (finishedPhase "queued" ending.1.status)
        ending.1.status ending.2)

def Outcome.answer (snapshot : OperationSnapshot) : Outcome T → Answer T
  | .finished (.ok value) => .value value
  | .finished (.error (.cancelled _)) => .cancelled snapshot
  | .finished (.error error) => .tool error
  | .interrupted (.timedOut timeoutSecs) => .timedOut timeoutSecs snapshot
  | .interrupted .cancelled => .cancelled snapshot

/-! ### Moves -/

inductive Move (T : Type) where
  | start (clock : Clock)
  | send (update : ProgressUpdate)
  | dropSenders
  | complete (result : Except ToolError T)
  | cancel
  | elapse
  | poll
  | drain (clock : Clock)
  | stopDrain
  | drained
  | abandon
  | cleaned
  | cleanupElapsed
  | awaited
  | close (clock : Clock)
  | drop

/- `tokio::select!` is biased. -/
def Call.selected (c : Call T) : Option (Call T) :=
  match c.ready with
  | some result => some { c with point := .draining result }
  | none =>
    if c.clientCancelled then
      some { c with point := .cleaning .cancelled, workerCancelled := true }
    else if c.elapsed then
      some { c with point := .cleaning (.timedOut c.timeout), workerCancelled := true }
    else none

def Drain.abort : Drain → Drain
  | .running => .aborted
  | drain => drain

def Drain.over : Drain → Bool
  | .running | .aborted => false
  | .stopped | .ended => true

/- The future of the operation lives until the call has answered or is dropped. -/
def Point.pending : Point T → Bool
  | .selecting | .cleaning _ | .stopping _ => true
  | .drawn | .draining _ | .closing _ | .answered .. | .dropped => false

def Point.droppable : Point T → Bool
  | .selecting | .draining _ | .cleaning _ | .stopping _ => true
  | .drawn | .closing _ | .answered .. | .dropped => false

def Point.isDrawn : Point T → Bool
  | .drawn => true
  | _ => false

/- The drain receives an update or sees that nobody is left to send one. -/
def Call.drainStep (c : Call T) (clock : Clock) : Option (Call T × Option Operation.Act) :=
  if c.drain.over || c.point.isDrawn then none
  else
    match c.sent[c.taken]? with
    | some update => some ({ c with taken := c.taken + 1 },
        some (.progress clock c.opId update.phase update.message))
    | none =>
      if c.senders then none
      else some ({ c with drain := if c.drain = .running then .ended else .stopped }, none)

/- The call after a move, and the call of the registry that the move makes. -/
def Call.move (c : Call T) (inner : OperationRegistryInner) :
    Move T → Option (Call T × Option Operation.Act)
  | .start clock =>
    match c.point with
    | .drawn => some ({ c with point := .selecting },
        some (.start clock c.opId c.toolName c.targetSummary))
    | _ => none
  | .send update =>
    if c.senders && !c.point.isDrawn then some ({ c with sent := c.sent ++ [update] }, none)
    else none
  | .dropSenders =>
    if c.point.isDrawn then none else some ({ c with senders := false }, none)
  | .complete result =>
    if c.point.pending && c.ready.isNone then some ({ c with ready := some result }, none) else none
  | .cancel => some ({ c with clientCancelled := true }, none)
  | .elapse =>
    match c.point with
    | .selecting => if c.elapsed then none else some ({ c with elapsed := true }, none)
    | _ => none
  | .poll =>
    match c.point with
    | .selecting => c.selected.map (·, none)
    | _ => none
  | .drain clock => c.drainStep clock
  | .stopDrain => if c.drain = .aborted then some ({ c with drain := .stopped }, none) else none
  | .drained =>
    match c.point with
    | .draining result =>
      if c.drain.over then some ({ c with point := .closing (.finished result) }, none) else none
    | _ => none
  | .abandon =>
    match c.point with
    | .draining result =>
      if c.drain.over then none
      else some ({ c with point := .closing (.finished result), drain := c.drain.abort }, none)
    | _ => none
  | .cleaned =>
    match c.point with
    | .cleaning why =>
      if c.ready.isSome then some ({ c with point := .stopping why, drain := c.drain.abort }, none)
      else none
    | _ => none
  | .cleanupElapsed =>
    match c.point with
    | .cleaning why =>
      if c.ready.isSome then none
      else some ({ c with point := .stopping why, drain := c.drain.abort }, none)
    | _ => none
  | .awaited =>
    match c.point with
    | .stopping why =>
      if c.drain.over then some ({ c with point := .closing (.interrupted why) }, none) else none
    | _ => none
  | .close clock =>
    match c.point with
    | .closing outcome =>
      let ending := outcome.ending c.toolName
      some ({ c with
        point := .answered outcome (outcome.answer (c.snapshot inner clock ending)) },
          some (.finish clock c.opId ending.1 ending.2))
    | _ => none
  | .drop => if c.point.droppable then some ({ c with point := .dropped }, none) else none

/-! ### The server -/

/- The registry and its history, and the calls in the order in which they drew their ids. -/
structure Server (T : Type) where
  history : Operation.World
  calls : List (Call T)

inductive Act (T : Type) where
  | draw (now : ℕ) (toolName targetSummary : String) (timeoutSecs : Option ℕ)
    (defaultTimeoutSecs : ℕ)
  | move (call : ℕ) (move : Move T)

def idle (T : Type) : Server T := ⟨Operation.empty, []⟩

/- The registry takes every call, also a start of an operation that it knows. -/
def advance (history : Operation.World) (act : Operation.Act) : Operation.World where
  inner := history.called act
  log := history.log ++ (history.recorded act).toList
  started :=
    match act with
    | .start _ opId _ _ => opId :: history.started
    | .progress .. | .finish .. => history.started
  unfinished :=
    match act with
    | .start _ opId _ _ => opId :: history.unfinished
    | .progress .. => history.unfinished
    | .finish _ opId _ _ => history.unfinished.filter fun id => id ≠ opId

def step (s : Server T) : Act T → Option (Server T)
  | .draw now toolName targetSummary timeoutSecs defaultTimeoutSecs =>
    some { s with
      calls := s.calls ++ [.drawn T (nextOperationId now s.calls.length) toolName targetSummary
        timeoutSecs defaultTimeoutSecs] }
  | .move call move =>
    s.calls[call]?.bind fun c => (c.move s.history.inner move).map fun moved =>
      ⟨moved.2.elim s.history (advance s.history), s.calls.set call moved.1⟩

end IdaHeadless.Foreground
