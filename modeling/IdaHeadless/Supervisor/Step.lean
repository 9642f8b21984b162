import IdaHeadless.Opening.Step
import IdaHeadless.SessionManager.Step
import IdaHeadless.WorkerPool.Flow

/-!
# The session manager over its worker pool (supervisor/session.rs, ida/pool.rs)

A task of the manager that asks something of a session's worker starts a future of the
pool and awaits it. `shutdown` closes the sessions it finds and then calls
`shutdown_all` of the pool. Here the two models run together: what the manager's model
takes as the outcome of an await is the exit of the pool's future, and what the pool's
model takes as a client's action is what a task of the manager does at its next await.

The two clocks are not compared, and what `has_live_database` returns is left open.
-/

namespace IdaHeadless.Supervisor

structure Config where
  pool : WorkerPool.Config
  tools : String → Option String

/-- What a task of the manager has under way: the session object it uses, and the future
of the pool that it awaits. -/
structure Errand where
  session : WorkerPool.SessionRef
  task : Option WorkerPool.TaskId
  deriving DecidableEq

/-- What a request brings for its worker only: the probes that a warmup has still to make,
and the `timeout_secs` among the arguments of a call. -/
structure Options where
  probes : List String
  timeoutSecs : Option ℕ

/- `shutdown` has not been called, is closing the sessions as task `t`, or awaits the
retirements `first` to `last` of `shutdown_all`. `closed` records the sessions whose close
has returned. -/
inductive Phase where
  | serving
  | closing (t : SessionManager.TaskId) (closed : List SessionManager.SessionRef)
  | killing (first last : WorkerPool.TaskId)
  deriving DecidableEq

/- `worker` is the `PooledSessionState` of a `ManagedSession`. -/
structure State where
  manager : SessionManager.World
  pool : WorkerPool.World
  worker : SessionManager.SessionRef → WorkerPool.SessionRef
  errand : SessionManager.TaskId → Option Errand
  options : SessionManager.TaskId → Options
  phase : Phase

def start (cfg : Config) : State where
  manager := SessionManager.init
  pool := WorkerPool.init cfg.pool
  worker := fun _ => 0
  errand := fun _ => none
  options := fun _ => ⟨[], none⟩
  phase := .serving

inductive Act where
  | openSession (request : SessionManager.OpenSessionRequest) (buildCaches initHexrays : Bool)
  | call (database tool : String) (timeoutSecs : Option ℕ)
  | list
  | close (database : String) (save : Bool)
  | reapIdle
  | shutdown
  | tick (nanos : ℕ)
  | resume (t : SessionManager.TaskId) (o : SessionManager.Outcome)
  | probe (t : SessionManager.TaskId)
  | drop (t : SessionManager.TaskId)
  | dropSession (k : WorkerPool.SessionRef)
  | pool (a : WorkerPool.Act)
  | shutdownAll

/-! ### The closes of `shutdown` -/

def Phase.closer : Phase → Option SessionManager.TaskId
  | .closing t _ => some t
  | _ => none

/-- The session that `shutdown` is closing. -/
def closes : SessionManager.Pc → Option SessionManager.SessionRef
  | .close _ _ (.shutdown _) (.closing m) => some m
  | _ => none

/-- A task that waited at `p` has gone on. -/
def Phase.record (p : SessionManager.Pc) : Phase → Phase
  | .closing t closed => .closing t ((closes p).toList ++ closed)
  | phase => phase

/-! ### What the manager asks of the pool -/

/-- What an operation of a session returns. -/
def answer : WorkerPool.Exit → Option ToolError
  | .err e | .released _ (.retired e) => some e
  | .ok | .released _ .recycled | .released _ .foundDead | .abandoned _ => none

/-- The await of `run_worker_warmup`. -/
def warms : SessionManager.Pc → Bool
  | .openSession _ (.warming ..) => true
  | _ => false

/-- The operation that task `t` starts where it comes to `pc`, and on which session. -/
def asks (cfg : Config) (x : State) (t : SessionManager.TaskId) :
    SessionManager.Pc → Option (WorkerPool.SessionRef × WorkerPool.Act)
  | .openSession _ (.discardClose _ _ m) | .list (.closing m _ _) =>
    some (x.worker m, .closeWithSave (x.worker m) false)
  | .close _ save _ (.closing m) => some (x.worker m, .closeWithSave (x.worker m) save)
  | .reap (.closing m _) => some (x.worker m, .closeWithSave (x.worker m) true)
  | .call _ tool (.worker m) => (cfg.tools tool).map fun name =>
      (x.worker m, .callTool (x.worker m) name (some ((x.options t).timeoutSecs.getD 600)))
  | _ => none

/-- What task `t` awaits of the pool is over, with outcome `o`. A warmup goes on when the last
of its probes is, whatever came back. -/
def ready (x : State) (t : SessionManager.TaskId) (p : SessionManager.Pc)
    (o : SessionManager.Outcome) : Bool :=
  match x.errand t with
  | none => true
  | some e =>
    match e.task.map x.pool.tasks with
    | none => (x.options t).probes.isEmpty
    | some (some (.done exit)) =>
      if warms p then (x.options t).probes.isEmpty
      else match o with
        | .answered err => err = answer exit
        | _ => false
    | some _ => false

/-- At the end of an `open` the session object comes behind the registered session. -/
def adopt (x : State) (t : SessionManager.TaskId) (p : SessionManager.Pc) :
    SessionManager.SessionRef → WorkerPool.SessionRef :=
  match p, x.errand t with
  | .openSession _ (.insert ..), some e => Function.update x.worker x.manager.mem.next e.session
  | _, _ => x.worker

/-- Task `t` has gone from `p` to `q`. -/
def follow (cfg : Config) (x : State) (manager : SessionManager.World)
    (t : SessionManager.TaskId) (p q : SessionManager.Pc) : Option State :=
  match q with
  | .openSession _ (.opening _ id) =>
    let k := x.pool.mem.nextSession
    (Runs.run (WorkerPool.step cfg.pool) x.pool [.newSession id, .openObserved k (some 600)]).map
      fun pool => { x with
        manager
        pool
        errand := Function.update x.errand t (some ⟨k, some x.pool.next⟩) }
  | .openSession _ (.warming ..) | .openSession _ (.insert ..) =>
    some { x with
      manager
      errand := Function.update x.errand t ((x.errand t).map fun e => { e with task := none }) }
  | _ =>
    match asks cfg x t q with
    | some (k, a) =>
      (WorkerPool.step cfg.pool x.pool a).map fun pool => { x with
        manager
        pool
        errand := Function.update x.errand t (some ⟨k, some x.pool.next⟩) }
    | none => some { x with
        manager
        worker := adopt x t p
        errand := Function.update x.errand t none }

/-- The next probe of a warmup, once the last one is over. -/
def probe (cfg : Config) (x : State) (t : SessionManager.TaskId) : Option State :=
  match x.manager.tasks t, x.errand t, (x.options t).probes with
  | some p, some e, tool :: rest =>
    if warms p && (e.task.bind x.pool.tasks).all WorkerPool.Pc.ended then
      (WorkerPool.step cfg.pool x.pool (.callTool e.session tool none)).map fun pool => { x with
        pool
        errand := Function.update x.errand t (some ⟨e.session, some x.pool.next⟩)
        options := Function.update x.options t { x.options t with probes := rest } }
    else none
  | _, _, _ => none

/-! ### Dropped futures and sessions -/

/-- A dropped future of the manager takes the pool's future with it. -/
def dropErrand (cfg : Config) (x : State) (t : SessionManager.TaskId) : WorkerPool.World :=
  (((x.errand t).bind Errand.task).bind fun u => WorkerPool.step cfg.pool x.pool (.drop u)).getD
    x.pool

/-- The sessions of which a task holds an `Arc`. -/
def refs : SessionManager.Pc → List SessionManager.SessionRef
  | .openSession _ (.lifecycle _ _ m) | .openSession _ (.current _ _ m)
  | .openSession _ (.live _ _ m) | .openSession _ (.discard _ _ m)
  | .openSession _ (.discardClose _ _ m) | .openSession _ (.touch _ _ m)
  | .close _ _ _ (.lifecycle m) | .close _ _ _ (.remove m) | .close _ _ _ (.info m)
  | .close _ _ _ (.closing m) | .call _ _ (.lifecycle m) | .call _ _ (.current m)
  | .call _ _ (.access m) | .call _ _ (.worker m) | .call _ _ (.failed m _)
  | .call _ _ (.prune m _) | .call _ _ (.touch m) => [m]
  | .list (.live m rest _) | .list (.lifecycle m rest _) | .list (.recheck m rest _)
  | .list (.remove m rest _) | .list (.closing m rest _) | .reap (.idle _ m rest)
  | .reap (.elapsed _ m rest) | .reap (.lifecycle m rest) | .reap (.remove m rest)
  | .reap (.closing m rest) => m :: rest
  | _ => []

/-- The session is behind an entry of the map. -/
def registered (x : State) (k : WorkerPool.SessionRef) : Bool :=
  x.manager.mem.byId.entries.any fun entry => x.worker entry.2 = k

/-- Somebody still has the session object. -/
def held (x : State) (k : WorkerPool.SessionRef) : Bool :=
  registered x k || (List.range x.manager.next).any fun t =>
    (x.errand t).any (fun e => e.session = k) ||
      (x.manager.tasks t).any fun p => (refs p).any fun m => x.worker m = k

/-! ### One step -/

/-- The warmup gives no cancellation token to its probes. -/
def probing (x : State) (u : WorkerPool.TaskId) : Bool :=
  (List.range x.manager.next).any fun t =>
    (x.errand t).any (fun e => e.task = some u) && (x.manager.tasks t).any warms

/-- What the pool does by itself. -/
def runs (x : State) : WorkerPool.Act → Bool
  | .advance u .cancelled => !probing x u
  | .advance _ _ | .tick => true
  | _ => false

def managerStep (cfg : Config) (x : State) (a : SessionManager.Act) : Option State :=
  (SessionManager.step cfg.tools x.manager a).map fun manager => { x with manager }

def step (cfg : Config) (x : State) : Act → Option State
  | .openSession request buildCaches initHexrays =>
    (managerStep cfg x (.openSession request)).map fun y => { y with
      options := Function.update x.options x.manager.next
        ⟨Opening.warmupProbes buildCaches initHexrays, none⟩ }
  | .call database tool timeoutSecs =>
    (managerStep cfg x (.call database tool)).map fun y => { y with
      options := Function.update x.options x.manager.next ⟨[], timeoutSecs⟩ }
  | .list => managerStep cfg x .list
  | .close database save => managerStep cfg x (.close database save)
  | .reapIdle => managerStep cfg x .reapIdle
  | .tick nanos => managerStep cfg x (.tick nanos)
  | .shutdown =>
    if x.phase = .serving then
      (managerStep cfg x .shutdown).map fun y => { y with phase := .closing x.manager.next [] }
    else none
  | .resume t o =>
    (x.manager.tasks t).bind fun p =>
      if ready x t p o then
        (SessionManager.step cfg.tools x.manager (.advance t o)).bind fun manager =>
          (manager.tasks t).bind fun q =>
            (follow cfg x manager t p q).map fun y => { y with phase := x.phase.record p }
      else none
  | .probe t => probe cfg x t
  | .drop t =>
    -- `main` awaits `shutdown`, and the reaper is a task of its own
    if x.phase.closer = some t then none
    else match x.manager.tasks t with
      | some (.reap _) => none
      | _ => (SessionManager.step cfg.tools x.manager (.drop t)).map fun manager => { x with
          manager
          pool := dropErrand cfg x t
          errand := Function.update x.errand t none }
  | .dropSession k =>
    if held x k then none
    else (WorkerPool.step cfg.pool x.pool (.dropSession k)).map fun pool => { x with pool }
  | .pool a =>
    if runs x a then (WorkerPool.step cfg.pool x.pool a).map fun pool => { x with pool } else none
  | .shutdownAll =>
    match x.phase with
    | .closing t _ =>
      if x.manager.tasks t = some (.done .ended) then
        (WorkerPool.step cfg.pool x.pool .shutdownAll).map fun pool => { x with
          pool
          phase := .killing x.pool.next pool.next }
      else none
    | _ => none

/- `shutdown` has returned. -/
def Finished (x : State) : Prop :=
  ∃ first last, x.phase = .killing first last ∧
    ∀ t, first ≤ t → t < last → (x.pool.tasks t).any WorkerPool.Pc.ended = true

end IdaHeadless.Supervisor
