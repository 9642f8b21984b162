import IdaHeadless.WorkerPool.Step

/-!
# `SessionManager::open` over the worker pool (supervisor/session.rs, ida/pool.rs)

The part of `open` from the new `PooledSessionState` to the insertion in the maps.
It awaits futures of the pool one after the other: `open_observed`, then a `dispatch`
for each warmup probe. `open_lock` is held from before the first of them to the end,
so there is one such opening at a time, and the session object is the opening's own
until it is inserted. Everything else the supervisor does with the pool is a pool action.

What `open` decides before it makes the session (mode, path, an existing session of
the path) is the business of `SessionManager`.
-/

namespace IdaHeadless.Opening
open IdaHeadless.WorkerPool (TaskId SessionRef Config Pool Pc)

/- Where an opening is suspended: it awaits the pool's task `t`, or the write lock of
the maps. -/
inductive Stage where
  | opening (t : TaskId)
  | warmup (t : TaskId) (rest : List String)
  | insert
  deriving DecidableEq

def Stage.awaits : Stage → Option TaskId
  | .opening t | .warmup t _ => some t
  | .insert => none

structure Attempt where
  path : String
  sessionId : String
  session : SessionRef
  probes : List String
  stage : Stage
  deriving DecidableEq

/- `opening` is the holder of `open_lock`, once it has made its session; `byPath` and
`byId` are the maps. -/
structure Supervisor where
  pool : WorkerPool.World
  opening : Option Attempt
  byPath : String → Option String
  byId : String → Option SessionRef

def start (cfg : Config) : Supervisor := ⟨WorkerPool.init cfg, none, fun _ => none, fun _ => none⟩

/- The tools `warmup` calls for its two flags. -/
def warmupProbes (buildCaches initHexrays : Bool) : List String :=
  (if buildCaches then ["strings"] else []) ++ (if initHexrays then ["decompile"] else [])

inductive Act where
  | pool (a : WorkerPool.Act)
  | begin (path sessionId : String) (buildCaches initHexrays : Bool)
  | resume
  | drop
  deriving DecidableEq

/- The session object is not in the maps yet, and its futures are those of `open`: others
neither use the object nor drop the futures. `warmup` passes no cancellation token. -/
def Attempt.Private (o : Attempt) : WorkerPool.Act → Prop
  | .openObserved k _ | .callTool k _ _ | .closeWithSave k _ | .dropSession k => k = o.session
  | .drop t => o.stage.awaits = some t
  | .advance t outcome => outcome = .cancelled ∧ ∃ rest, o.stage = .warmup t rest
  | _ => False

instance (o : Attempt) : ∀ a, Decidable (o.Private a)
  | .openObserved k _ | .callTool k _ _ | .closeWithSave k _ | .dropSession k =>
    inferInstanceAs (Decidable (k = o.session))
  | .drop t => inferInstanceAs (Decidable (o.stage.awaits = some t))
  | .advance t outcome =>
    match h : o.stage with
    | .warmup u rest =>
      decidable_of_iff (outcome = .cancelled ∧ u = t) (by simp [Attempt.Private, h])
    | .opening u => isFalse (by simp [Attempt.Private, h])
    | .insert => isFalse (by simp [Attempt.Private, h])
  | .newSession _ | .shutdownAll | .tick => isFalse id

/-! ### One step -/

/- On to the next probe, or to the insertion. What the last probe came back with is only
reported (`run_worker_warmup`, `warmup_rpc_failure`). -/
def nextProbe (cfg : Config) (x : Supervisor) (o : Attempt) : List String → Option Supervisor
  | [] => some { x with opening := some { o with stage := .insert } }
  | tool :: rest =>
    (WorkerPool.step cfg x.pool (.callTool o.session tool none)).map fun pool =>
      { x with pool, opening := some { o with stage := .warmup x.pool.next rest } }

/- `open` returns an error, or its future is dropped: the only reference to the session
object ends. -/
def giveUp (cfg : Config) (x : Supervisor) (pool : WorkerPool.World) (o : Attempt) :
    Option Supervisor :=
  (WorkerPool.step cfg pool (.dropSession o.session)).map fun pool =>
    { x with pool, opening := none }

def resume (cfg : Config) (x : Supervisor) (o : Attempt) : Option Supervisor :=
  match o.stage with
  | .opening t =>
    match x.pool.tasks t with
    | some (.done .ok) => nextProbe cfg x o o.probes
    | some (.done _) => giveUp cfg x x.pool o
    | _ => none
  | .warmup t rest =>
    match x.pool.tasks t with
    | some (.done _) => nextProbe cfg x o rest
    | _ => none
  | .insert =>
    some { x with
      opening := none
      byPath := Function.update x.byPath o.path (some o.sessionId)
      byId := Function.update x.byId o.sessionId (some o.session) }

/- The future of `open` is dropped, and with it the future it awaits. -/
def dropOpening (cfg : Config) (x : Supervisor) (o : Attempt) : Option Supervisor :=
  let pool := (o.stage.awaits.bind fun t => WorkerPool.step cfg x.pool (.drop t)).getD x.pool
  giveUp cfg x pool o

def step (cfg : Config) (x : Supervisor) : Act → Option Supervisor
  | .pool a =>
    if ∃ o ∈ x.opening, o.Private a then none
    else (WorkerPool.step cfg x.pool a).map fun pool => { x with pool }
  | .begin path sessionId buildCaches initHexrays =>
    if x.opening ≠ none ∨ x.byId sessionId ≠ none then none
    else
      (WorkerPool.step cfg x.pool (.newSession sessionId)).bind fun made =>
        (WorkerPool.step cfg made (.openObserved x.pool.mem.nextSession (some 600))).map fun pool =>
          { x with
            pool
            opening := some ⟨path, sessionId, x.pool.mem.nextSession,
              warmupProbes buildCaches initHexrays, .opening made.next⟩ }
  | .resume => x.opening.bind (resume cfg x)
  | .drop => x.opening.bind (dropOpening cfg x)

/-! ### A usable session -/

/- The session holds a worker whose slot is leased to it. -/
def Usable (s : Pool) (k : SessionRef) (sessionId : String) : Prop :=
  ∃ h, s.handleOf k = some h ∧ s.stateOf h.workerId = some (.leased sessionId)

end IdaHeadless.Opening
