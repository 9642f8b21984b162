import IdaHeadless.Runs
import IdaHeadless.Tasks
import IdaHeadless.ToolError
import Mathlib.Data.Finset.Card

/-!
# The state of the worker pool (pool.rs)

The pool is shared by tasks. A task is a future that is polled by the runtime,
or a task that was spawned on it; it is suspended at one await point at a time,
and `Pc` has one constructor for each of them. Between two await points a task
runs alone on what its locks protect, so one transition takes a task from one
await point to the next.

Three of the locks are held across an await and appear in the state with their
holder: `PoolInner` (a scan over the children awaits each child's lock), the
`call_lock` of a slot and the `handle` lock of a session. The `child` lock of a
slot is never held across an await, so a section under it is one transition.
-/

namespace IdaHeadless.WorkerPool

abbrev WorkerId := ℕ
abbrev TaskId := ℕ
/-- Which `PooledSessionState` object; two objects may carry the same session id. -/
abbrev SessionRef := ℕ

/-- `WorkerPoolConfig`, the fields the pool's logic reads. -/
structure Config where
  maxWorkers : ℕ
  minWorkers : ℕ
  workerIdleTimeout : ℕ
  workerOpTimeout : ℕ

/-- `min_workers.min(max_workers)`. -/
def Config.min (cfg : Config) : ℕ := Nat.min cfg.minWorkers cfg.maxWorkers

/-- `MAX_TIMEOUT_SECS` and `CHILD_TIMEOUT_GRACE_SECS`. -/
def maxTimeoutSecs : ℕ := 600
def childTimeoutGraceSecs : ℕ := 10

/-- `worker_op_timeout` (`pool.rs:738-750`). -/
def Config.opTimeout (cfg : Config) : Option ℕ → ℕ
  | none => cfg.workerOpTimeout
  | some seconds =>
    Nat.min (Nat.min seconds maxTimeoutSecs + childTimeoutGraceSecs) cfg.workerOpTimeout

/-- `ChildState`. -/
inductive ChildState where
  | idle
  | leased (sessionId : String)
  | closing
  | dead
  deriving DecidableEq, Repr

/-- `{:?}` of a `ChildState`. -/
def ChildState.debug : ChildState → String
  | .idle => "Idle"
  | .leased sessionId => "Leased \x7b session_id: \"" ++ sessionId ++ "\" \x7d"
  | .closing => "Closing"
  | .dead => "Dead"

/-- A request that was sent to the child over its peer. -/
inductive Request where
  | tool (sessionId : String) (name : String)
  | closeIdb (sessionId : String) (save : Bool)
  deriving DecidableEq, Repr

/-- `ChildSlot` with its `PooledChild`. `sent` records the requests, oldest first. -/
structure Slot where
  state : ChildState
  idbPath : Option String
  lastUsed : ℕ
  callLock : Option TaskId
  sent : List Request
  deriving DecidableEq, Repr

/-- What `spawn_slot` builds. -/
def Slot.fresh (state : ChildState) (now : ℕ) : Slot := ⟨state, none, now, none, []⟩

/-- `PooledWorkerHandle`. -/
structure Handle where
  sessionId : String
  workerId : WorkerId
  deriving DecidableEq, Repr

/-- `PooledSessionState`; `dropped` once `Drop` has run. -/
structure Session where
  sessionId : String
  handle : Option Handle
  handleLock : Option TaskId
  dropped : Bool
  deriving DecidableEq, Repr

/-- What came back for one request: a `CallToolResult`, of which `err` is its
`remote::result_error` and `info` the path in the `DbInfo` that `parse_json`
reads from it, a transport error, or the elapsed timeout. -/
inductive Answer where
  | result (err : Option ToolError) (info : Option String)
  | transport (err : ToolError)
  | timeout
  deriving DecidableEq, Repr

/-- `CHILD_CLOSE_TIMEOUT_SECS`. -/
def childCloseTimeoutSecs : ℕ := 5

/-- `close_error` in `release_inner` (`pool.rs:530-535`). -/
def closeError : Answer → Option ToolError
  | .result err _ => err
  | .transport err => some err
  | .timeout => some (.timeout childCloseTimeoutSecs)

/-- Who awaits the answer of `call_tool`. -/
inductive Caller where
  | dispatch (tool : String)
  | openObserved (freshLease : Bool)
  deriving DecidableEq, Repr

def Caller.tool : Caller → String
  | .dispatch tool => tool
  | .openObserved _ => "open_idb"

/-- The awaits of `lease_for_open` and of the `lease` in it. -/
inductive LeaseStage where
  | handle
  | inner
  | scan (rest : List WorkerId) (active : ℕ) (deadIds : List WorkerId)
  | spawn (id : WorkerId)
  | install (id : WorkerId) (failed : Option ToolError)
  deriving DecidableEq, Repr

/-- The awaits of `call_tool`. -/
inductive CallStage where
  | lock
  | child
  | await
  deriving DecidableEq, Repr

/-- How `release_inner` ended. -/
inductive ReleaseExit where
  | recycled
  | foundDead
  | retired (err : ToolError)
  deriving DecidableEq, Repr

/-- The awaits of `release_with_save` and of the `release_inner` in it. -/
inductive ReleaseStage where
  | lock
  | child
  | close
  | final
  | idleCheck (exit : ReleaseExit)
  deriving DecidableEq, Repr

/-- What awaits `mark_dead`, or spawned it: the task of a dropped
`WorkerRetireGuard`, `call_tool` and `release_inner` (both hold the call lock
and an armed guard), `dispatch` after a retiring answer (no guard), the task of
a dropped `SpawnReservation`, and `shutdown_all`. -/
inductive RetireCtx where
  | guard (origin : TaskId) (sessionId : String)
  | call (k : SessionRef) (sessionId : String) (caller : Caller) (err : ToolError)
  | release (sessionId : String) (save : Bool) (err : ToolError)
  | dispatch (k : SessionRef) (sessionId : String) (err : ToolError)
  | reservation
  | shutdown
  deriving DecidableEq, Repr

/-- The awaits of `mark_dead_inner` and of the `ensure_min_workers` in it. -/
inductive RetireStage where
  | take
  | forget (took : Bool)
  | finish
  | check
  | spawn (id : WorkerId)
  | install (id : WorkerId) (failed : Option ToolError)
  deriving DecidableEq, Repr

/-- The awaits of the task of `schedule_idle_reap`. -/
inductive ReapStage where
  | spawned
  | sleep
  | inner
  | count (rest : List WorkerId) (live : ℕ)
  | take
  | forget
  | finish
  deriving DecidableEq, Repr

/-- The awaits of `warm_min`. -/
inductive WarmStage where
  | reserve
  | spawn (id : WorkerId)
  | install (id : WorkerId) (failed : Option ToolError)
  deriving DecidableEq, Repr

/-- How a task ended. -/
inductive Exit where
  | ok
  | err (e : ToolError)
  | released (workerId : WorkerId) (exit : ReleaseExit)
  | abandoned (workerId : WorkerId)
  deriving DecidableEq, Repr

/-- Where a task is suspended. -/
inductive Pc where
  | done (exit : Exit)
  | warm (left : ℕ) (stage : WarmStage)
  | lease (k : SessionRef) (timeout : ℕ) (stage : LeaseStage)
  | call (k : SessionRef) (h : Handle) (caller : Caller) (timeout : ℕ) (stage : CallStage)
  | dispatchHandle (k : SessionRef) (tool : String) (timeout : ℕ)
  | dispatchClear (k : SessionRef) (h : Handle) (retire : Bool) (err : ToolError)
  | openStore (k : SessionRef) (h : Handle) (path : String)
  | takeHandle (k : SessionRef) (save : Bool) (detached : Bool)
  | release (h : Handle) (save : Bool) (stage : ReleaseStage)
  | retire (w : WorkerId) (ctx : RetireCtx) (stage : RetireStage)
  | reap (w : WorkerId) (started : ℕ) (stage : ReapStage)
  | unreserve (id : WorkerId) (slot : Bool)
  deriving DecidableEq, Repr

/-- The memory the tasks share: `WorkerPool`, the slots and the session objects.
`inner` is the task that holds the lock of `PoolInner` across an await. `serving`
is set when `warm_min` has returned `Ok`: sessions exist only from then on
(`main.rs:1055`). -/
structure Pool where
  children : List WorkerId
  spawning : Finset WorkerId
  nextId : WorkerId
  inner : Option TaskId
  slots : WorkerId → Option Slot
  sessions : SessionRef → Option Session
  nextSession : SessionRef
  now : ℕ
  serving : Bool

/-- The pool and its tasks. -/
abbrev World := Tasks.World Pool Pc
abbrev Move := Tasks.Move Pool Pc

/-- `WorkerPool::new`, with `warm_min` about to run as task 0. -/
def init (cfg : Config) : World where
  mem := ⟨[], ∅, 0, none, fun _ => none, fun _ => none, 0, 0, false⟩
  tasks := fun t => if t = 0 then some (.warm cfg.min .reserve) else none
  next := 1

/-! ### Reading the memory -/

def Pool.stateOf (s : Pool) (w : WorkerId) : Option ChildState := (s.slots w).map Slot.state
def Pool.callLockOf (s : Pool) (w : WorkerId) : Option TaskId := (s.slots w).bind Slot.callLock
def Pool.idOf (s : Pool) (k : SessionRef) : Option String := (s.sessions k).map Session.sessionId
def Pool.handleOf (s : Pool) (k : SessionRef) : Option Handle := (s.sessions k).bind Session.handle
def Pool.handleLockOf (s : Pool) (k : SessionRef) : Option TaskId :=
  (s.sessions k).bind Session.handleLock

/-- The children that are not `Dead`. -/
def Pool.live (s : Pool) : List WorkerId :=
  s.children.filter fun w => s.stateOf w ≠ some .dead

/-- `live_or_reserved_count`. -/
def Pool.liveOrReserved (s : Pool) : ℕ := s.spawning.card + s.live.length

/-! ### Writing the memory -/

def Pool.setSlot (s : Pool) (w : WorkerId) (slot : Slot) : Pool :=
  { s with slots := Function.update s.slots w (some slot) }

def Pool.setSession (s : Pool) (k : SessionRef) (session : Session) : Pool :=
  { s with sessions := Function.update s.sessions k (some session) }

/-- `PooledSessionState::new`. -/
def Pool.addSession (s : Pool) (sessionId : String) : Pool :=
  { s.setSession s.nextSession ⟨sessionId, none, none, false⟩ with
    nextSession := s.nextSession + 1 }

/-- `*inner.lock()` kept across an await, and its end. -/
def Pool.lockInner (s : Pool) (t : TaskId) : Pool := { s with inner := some t }
def Pool.unlockInner (s : Pool) : Pool := { s with inner := none }

/-- The end of a guard of the call lock of `w`, and of the handle lock of `k`. -/
def Pool.unlockCall (s : Pool) (w : WorkerId) : Pool :=
  { s with
    slots := Function.update s.slots w
      ((s.slots w).map fun slot => { slot with callLock := none }) }
def Pool.unlockHandle (s : Pool) (k : SessionRef) : Pool :=
  { s with
    sessions := Function.update s.sessions k
      ((s.sessions k).map fun se => { se with handleLock := none }) }

/-- `take_dead_worker_locked`. -/
def Slot.kill (slot : Slot) : Slot := { slot with state := .dead, idbPath := none }

/-- `reserve_spawn_slot_locked`; the reserved id is the old `next_id`. -/
def Pool.reserve (s : Pool) : Pool :=
  { s with spawning := insert s.nextId s.spawning, nextId := s.nextId + 1 }

/-- `finish_spawn_reservation`. -/
def Pool.finishReservation (s : Pool) (id : WorkerId) (slot : Bool) : Pool :=
  { s with
    spawning := s.spawning.erase id
    children := if slot then s.children ++ [id] else s.children }

/-- `inner.children.retain`: drop the given ids from the children. -/
def Pool.forget (s : Pool) (ids : List WorkerId) : Pool :=
  { s with children := s.children.filter (· ∉ ids) }

end IdaHeadless.WorkerPool
