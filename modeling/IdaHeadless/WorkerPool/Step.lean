import IdaHeadless.WorkerPool.State

/-!
# The transitions of the worker pool (pool.rs)

`step cfg s a` is the pool after action `a`, or `none` where the action is not
enabled: a lock is held by another task, or the task does not await what the
action says happened. `Act.advance` resumes one task up to its next await,
`Act.drop` drops a client's future where it is suspended. Each function below
says what one task does between two awaits: the memory it leaves, the await it
reaches and the tasks it spawns.
-/

namespace IdaHeadless.WorkerPool

/-- What ended the await of the resumed task. -/
inductive Outcome where
  | go
  | spawned
  | spawnFailed (started : Bool) (detail : String)
  | answer (a : Answer)
  | cancelled
  deriving DecidableEq, Repr

inductive Act where
  | newSession (sessionId : String)
  | openObserved (k : SessionRef) (timeoutSecs : Option ℕ)
  | callTool (k : SessionRef) (tool : String) (timeoutSecs : Option ℕ)
  | closeWithSave (k : SessionRef) (save : Bool)
  | dropSession (k : SessionRef)
  | shutdownAll
  | tick
  | advance (t : TaskId) (o : Outcome)
  | drop (t : TaskId)
  deriving DecidableEq, Repr

/-- Resume task `t`, which awaited a lock. -/
def go (t : TaskId) : Act := .advance t .go

/-! ### What a session does with the answer of `call_tool` -/

/-- The `Err` arm of `open_observed` (`pool.rs:1081-1086`). -/
def openErrPc (k : SessionRef) (freshLease : Bool) (err : ToolError) : Pc :=
  if openErrorReleasesLease freshLease err then .takeHandle k true false else .done (.err err)

/-- After `call_tool` returned `Err`. -/
def callErrPc (k : SessionRef) (h : Handle) (caller : Caller) (err : ToolError) : Pc :=
  match caller with
  | .dispatch _ => .dispatchClear k h false err
  | .openObserved fresh => openErrPc k fresh err

/-- What `call_compat_result` returns for an answer that `dispatch` passed on. -/
def dispatchExit : Option ToolError → Exit
  | some err => if isLifecycleError err then .err err else .ok
  | none => .ok

/-- After `call_tool` returned the child's result. -/
def callOkPc (k : SessionRef) (h : Handle) (caller : Caller) (err : Option ToolError)
    (info : Option String) : Pc :=
  match caller with
  | .dispatch _ =>
    match err with
    | some e =>
      if childToolErrorRetiresWorker e then .dispatchClear k h true e
      else .done (dispatchExit err)
    | none => .done .ok
  | .openObserved fresh =>
    match err, info with
    | some e, _ => openErrPc k fresh e
    | none, some path => .openStore k h path
    | none, none => openErrPc k fresh (.remoteProtocol "failed to parse open_idb response")

/-- The errors `call_tool` returns after it has killed the worker. -/
def cancelledError (h : Handle) (tool : String) : ToolError :=
  .cancelled ("cancelled " ++ tool ++ "; killed worker " ++ toString h.workerId)
def transportError (h : Handle) (tool : String) (err : ToolError) : ToolError :=
  .workerCrashed h.workerId (tool ++ ": " ++ err.display)
def opTimeoutError (h : Handle) (tool : String) (timeout : ℕ) : ToolError :=
  .timeoutDetailed (tool ++ " exceeded worker operation timeout of " ++ toString timeout ++
    " seconds; killed worker " ++ toString h.workerId)

/-- The error of a call that finds its worker dead, or not leased to its session. -/
def notLeasedError (h : Handle) (tool : String) (state : ChildState) : ToolError :=
  if state = .dead then .workerCrashed h.workerId tool
  else .remoteProtocol ("worker " ++ toString h.workerId ++ " is not leased to session " ++
    h.sessionId ++ " (state: " ++ state.debug ++ ")")

/-- The two errors of `spawn_slot` (`pool.rs:457-468`). -/
def spawnError (id : WorkerId) (started : Bool) (detail : String) : ToolError :=
  .remoteProtocol ("failed to " ++ (if started then "initialize" else "spawn") ++ " worker " ++
    toString id ++ ": " ++ detail)

/-! ### `warm_min` -/

def advanceWarm (s : Pool) (left : ℕ) : WarmStage → Outcome → Option Move
  | .reserve, .go =>
    match left with
    | 0 => some ⟨{ s with serving := true }, .done .ok, []⟩
    | n + 1 => if s.inner ≠ none then none else some ⟨s.reserve, .warm n (.spawn s.nextId), []⟩
  | .spawn id, .spawned =>
    some ⟨s.setSlot id (Slot.fresh .idle s.now), .warm left (.install id none), []⟩
  | .spawn id, .spawnFailed started detail =>
    some ⟨s, .warm left (.install id (some (spawnError id started detail))), []⟩
  | .install id failed, .go =>
    if s.inner ≠ none then none
    else match failed with
      | none => some ⟨s.finishReservation id true, .warm left .reserve, []⟩
      | some err => some ⟨s.finishReservation id false, .done (.err err), []⟩
  | _, _ => none

/-! ### `lease_for_open` and `lease` -/

/-- On to the next child, or to the end of the scan: forget the dead, then
refuse or reserve (`pool.rs:356-367`). -/
def scanNext (cfg : Config) (s : Pool) (k : SessionRef) (timeout : ℕ) (rest : List WorkerId)
    (active : ℕ) (deadIds : List WorkerId) : Move :=
  match rest with
  | _ :: _ => ⟨s, .lease k timeout (.scan rest active deadIds), []⟩
  | [] =>
    if cfg.maxWorkers ≤ active then
      ⟨((s.forget deadIds).unlockInner).unlockHandle k,
        .done (.err (.poolExhausted active cfg.maxWorkers)), []⟩
    else ⟨((s.forget deadIds).unlockInner).reserve, .lease k timeout (.spawn s.nextId), []⟩

/-- `*guard = Some(handle.clone())` of `lease_for_open`, and on to `call_tool`. -/
def leased (s : Pool) (k : SessionRef) (se : Session) (timeout : ℕ) (w : WorkerId) : Move :=
  let h : Handle := ⟨se.sessionId, w⟩
  ⟨s.setSession k { se with handle := some h, handleLock := none },
    .call k h (.openObserved true) timeout .lock, []⟩

def advanceLease (cfg : Config) (s : Pool) (t : TaskId) (k : SessionRef) (timeout : ℕ) :
    LeaseStage → Outcome → Option Move
  | .handle, .go =>
    match s.sessions k with
    | none => none
    | some se =>
      if se.handleLock ≠ none then none
      else match se.handle with
        | some h => some ⟨s, .call k h (.openObserved false) timeout .lock, []⟩
        | none => some ⟨s.setSession k { se with handleLock := some t },
            .lease k timeout .inner, []⟩
  | .inner, .go =>
    if s.inner ≠ none then none
    else some (scanNext cfg (s.lockInner t) k timeout s.children s.spawning.card [])
  | .scan (w :: rest) active deadIds, .go =>
    match s.slots w, s.sessions k with
    | some slot, some se =>
      match slot.state with
      | .dead => some (scanNext cfg s k timeout rest active (deadIds ++ [w]))
      | .idle =>
        some (leased
          (s.setSlot w { slot with state := .leased se.sessionId, lastUsed := s.now }).unlockInner
          k se timeout w)
      | _ => some (scanNext cfg s k timeout rest (active + 1) deadIds)
    | _, _ => none
  | .spawn id, .spawned =>
    match s.sessions k with
    | none => none
    | some se =>
      some ⟨s.setSlot id (Slot.fresh (.leased se.sessionId) s.now),
        .lease k timeout (.install id none), []⟩
  | .spawn id, .spawnFailed started detail =>
    some ⟨s, .lease k timeout (.install id (some (spawnError id started detail))), []⟩
  | .install id failed, .go =>
    if s.inner ≠ none then none
    else match failed, s.sessions k with
      | none, some se => some (leased (s.finishReservation id true) k se timeout id)
      | some err, _ => some ⟨(s.finishReservation id false).unlockHandle k, .done (.err err), []⟩
      | none, none => none
  | _, _ => none

/-! ### `call_tool` -/

def advanceCall (s : Pool) (t : TaskId) (k : SessionRef) (h : Handle) (caller : Caller)
    (timeout : ℕ) : CallStage → Outcome → Option Move
  | .lock, .go =>
    match s.slots h.workerId with
    | none => none
    | some slot =>
      if slot.callLock ≠ none then none
      else some ⟨s.setSlot h.workerId { slot with callLock := some t },
        .call k h caller timeout .child, []⟩
  | .child, .go =>
    match s.slots h.workerId with
    | none => none
    | some slot =>
      if slot.state = .leased h.sessionId then
        some ⟨s.setSlot h.workerId
            { slot with sent := slot.sent ++ [.tool h.sessionId caller.tool] },
          .call k h caller timeout .await, []⟩
      else some ⟨s.unlockCall h.workerId,
        callErrPc k h caller (notLeasedError h caller.tool slot.state), []⟩
  | .await, .answer (.result err info) =>
    some ⟨s.unlockCall h.workerId, callOkPc k h caller err info, []⟩
  | .await, .answer (.transport err) =>
    some ⟨s, .retire h.workerId
      (.call k h.sessionId caller (transportError h caller.tool err)) .take, []⟩
  | .await, .answer .timeout =>
    some ⟨s, .retire h.workerId
      (.call k h.sessionId caller (opTimeoutError h caller.tool timeout)) .take, []⟩
  | .await, .cancelled =>
    some ⟨s, .retire h.workerId
      (.call k h.sessionId caller (cancelledError h caller.tool)) .take, []⟩
  | _, _ => none

/-! ### `dispatch`, `open_observed` and `take_handle` around it -/

def advanceDispatchHandle (s : Pool) (k : SessionRef) (tool : String) (timeout : ℕ) :
    Option Move :=
  match s.sessions k with
  | none => none
  | some se =>
    if se.handleLock ≠ none then none
    else match se.handle with
      | none => some ⟨s, .done (.err .noDatabaseOpen), []⟩
      | some h => some ⟨s, .call k h (.dispatch tool) timeout .lock, []⟩

/-- `clear_handle_if_worker`. -/
def Session.clearHandleIfWorker (se : Session) (w : WorkerId) : Session :=
  if se.handle.map Handle.workerId = some w then { se with handle := none } else se

def advanceDispatchClear (s : Pool) (k : SessionRef) (h : Handle) (retire : Bool)
    (err : ToolError) : Option Move :=
  match s.sessions k with
  | none => none
  | some se =>
    if se.handleLock ≠ none then none
    else some ⟨s.setSession k (se.clearHandleIfWorker h.workerId),
      if retire then .retire h.workerId (.dispatch k h.sessionId err) .take
        else .done (.err err), []⟩

def advanceOpenStore (s : Pool) (h : Handle) (path : String) : Option Move :=
  match s.slots h.workerId with
  | none => none
  | some slot => some ⟨s.setSlot h.workerId { slot with idbPath := some path }, .done .ok, []⟩

def advanceTakeHandle (s : Pool) (k : SessionRef) (save : Bool) : Option Move :=
  match s.sessions k with
  | none => none
  | some se =>
    if se.handleLock ≠ none then none
    else match se.handle with
      | none => some ⟨s, .done (.err .noDatabaseOpen), []⟩
      | some h => some ⟨s.setSession k { se with handle := none }, .release h save .lock, []⟩

/-! ### `release_with_save` -/

def advanceRelease (s : Pool) (t : TaskId) (h : Handle) (save : Bool) :
    ReleaseStage → Outcome → Option Move
  | .lock, .go =>
    match s.slots h.workerId with
    | none => none
    | some slot =>
      if slot.callLock ≠ none then none
      else some ⟨s.setSlot h.workerId { slot with callLock := some t },
        .release h save .child, []⟩
  | .child, .go =>
    match s.slots h.workerId with
    | none => none
    | some slot =>
      if slot.state = .dead then
        some ⟨s.unlockCall h.workerId, .release h save (.idleCheck .foundDead), []⟩
      else
        some ⟨s.setSlot h.workerId { slot with
            state := .closing
            sent := slot.sent ++ [.closeIdb h.sessionId save] },
          .release h save .close, []⟩
  | .close, .answer a =>
    match closeError a with
    | none => some ⟨s, .release h save .final, []⟩
    | some err => some ⟨s, .retire h.workerId (.release h.sessionId save err) .take, []⟩
  | .final, .go =>
    match s.slots h.workerId with
    | none => none
    | some slot =>
      if slot.state = .dead then
        some ⟨s.unlockCall h.workerId, .release h save (.idleCheck .foundDead), []⟩
      else
        some ⟨(s.setSlot h.workerId { slot with
            state := .idle
            lastUsed := s.now
            idbPath := none }).unlockCall h.workerId,
          .release h save (.idleCheck .recycled), []⟩
  | .idleCheck exit, .go =>
    match s.slots h.workerId with
    | none => none
    | some slot => some ⟨s, .done (.released h.workerId exit),
        if slot.state = .idle then [.reap h.workerId 0 .spawned] else []⟩
  | _, _ => none

/-! ### `mark_dead_inner` and `ensure_min_workers` -/

/-- `replenish`: every caller but `shutdown_all`. -/
def RetireCtx.replenish : RetireCtx → Bool
  | .shutdown => false
  | _ => true

/-- Whether the call lock is held around `mark_dead`. -/
def RetireCtx.holdsCallLock : RetireCtx → Bool
  | .call .. | .release .. => true
  | _ => false

/-- What awaits `mark_dead` goes on with. -/
def RetireCtx.next (w : WorkerId) : RetireCtx → Pc
  | .guard .. | .reservation | .shutdown => .done .ok
  | .call k sessionId caller err => callErrPc k ⟨sessionId, w⟩ caller err
  | .release sessionId save err => .release ⟨sessionId, w⟩ save (.idleCheck (.retired err))
  | .dispatch _ _ err => .done (dispatchExit (some err))

def retireDone (s : Pool) (w : WorkerId) (ctx : RetireCtx) : Move :=
  ⟨if ctx.holdsCallLock then s.unlockCall w else s, ctx.next w, []⟩

/-- After `finish_dead_worker`. -/
def retireReplenish (s : Pool) (w : WorkerId) (ctx : RetireCtx) : Move :=
  if ctx.replenish then ⟨s, .retire w ctx .check, []⟩ else retireDone s w ctx

def advanceRetire (cfg : Config) (s : Pool) (w : WorkerId) (ctx : RetireCtx) :
    RetireStage → Outcome → Option Move
  | .take, .go =>
    match s.slots w with
    | none => none
    | some slot =>
      if slot.state = .dead then some ⟨s, .retire w ctx (.forget false), []⟩
      else some ⟨s.setSlot w slot.kill, .retire w ctx (.forget true), []⟩
  | .forget took, .go =>
    if s.inner ≠ none then none
    else if took then some ⟨s.forget [w], .retire w ctx .finish, []⟩
    else some (retireReplenish (s.forget [w]) w ctx)
  | .finish, .go => some (retireReplenish s w ctx)
  | .check, .go =>
    if cfg.min = 0 then some (retireDone s w ctx)
    else if s.inner ≠ none then none
    else
      let liveOrReserved := s.spawning.card + s.children.length
      if cfg.min ≤ liveOrReserved ∨ cfg.maxWorkers ≤ liveOrReserved then
        some (retireDone s w ctx)
      else some ⟨s.reserve, .retire w ctx (.spawn s.nextId), []⟩
  | .spawn id, .spawned =>
    some ⟨s.setSlot id (Slot.fresh .idle s.now), .retire w ctx (.install id none), []⟩
  | .spawn id, .spawnFailed started detail =>
    some ⟨s, .retire w ctx (.install id (some (spawnError id started detail))), []⟩
  | .install id failed, .go =>
    if s.inner ≠ none then none
    else match failed with
      | none => some ⟨s.finishReservation id true, .retire w ctx .check, []⟩
      | some _ => some (retireDone (s.finishReservation id false) w ctx)
  | _, _ => none

/-! ### The task of `schedule_idle_reap` -/

/-- On to the next child, or to the end of the count in
`take_stale_idle_worker_if_above_min`. -/
def countNext (cfg : Config) (s : Pool) (w : WorkerId) (started : ℕ) (rest : List WorkerId)
    (live : ℕ) : Move :=
  match rest with
  | _ :: _ => ⟨s, .reap w started (.count rest live), []⟩
  | [] =>
    if live ≤ cfg.minWorkers then ⟨s.unlockInner, .done .ok, []⟩
    else ⟨s, .reap w started .take, []⟩

def advanceReap (cfg : Config) (s : Pool) (t : TaskId) (w : WorkerId) (started : ℕ) :
    ReapStage → Outcome → Option Move
  | .spawned, .go =>
    if cfg.workerIdleTimeout = 0 then some ⟨s, .done .ok, []⟩
    else some ⟨s, .reap w s.now .sleep, []⟩
  | .sleep, .go =>
    if started + cfg.workerIdleTimeout ≤ s.now then some ⟨s, .reap w started .inner, []⟩
    else none
  | .inner, .go =>
    if s.inner ≠ none then none
    else some (countNext cfg (s.lockInner t) w started s.children s.spawning.card)
  | .count (c :: rest) live, .go =>
    match s.slots c with
    | none => none
    | some slot =>
      some (countNext cfg s w started rest (if slot.state = .dead then live else live + 1))
  | .take, .go =>
    match s.slots w with
    | none => none
    | some slot =>
      if slot.state ≠ .idle ∨ started < slot.lastUsed then some ⟨s.unlockInner, .done .ok, []⟩
      else some ⟨(s.setSlot w slot.kill).unlockInner, .reap w started .forget, []⟩
  | .forget, .go =>
    if s.inner ≠ none then none else some ⟨s.forget [w], .reap w started .finish, []⟩
  | .finish, .go => some ⟨s, .done .ok, []⟩
  | _, _ => none

/-! ### The task of a dropped `SpawnReservation` -/

def advanceUnreserve (s : Pool) (id : WorkerId) (slot : Bool) : Option Move :=
  if s.inner ≠ none then none
  else some ⟨s.finishReservation id false,
    if slot then .retire id .reservation .take else .done .ok, []⟩

/-- Resume task `t`, which waits at `pc`. -/
def advance (cfg : Config) (s : Pool) (t : TaskId) (o : Outcome) : Pc → Option Move
  | .done _ => none
  | .warm left stage => advanceWarm s left stage o
  | .lease k timeout stage => advanceLease cfg s t k timeout stage o
  | .call k h caller timeout stage => advanceCall s t k h caller timeout stage o
  | .dispatchHandle k tool timeout =>
    if o = .go then advanceDispatchHandle s k tool timeout else none
  | .dispatchClear k h retire err =>
    if o = .go then advanceDispatchClear s k h retire err else none
  | .openStore _ h path => if o = .go then advanceOpenStore s h path else none
  | .takeHandle k save _ => if o = .go then advanceTakeHandle s k save else none
  | .release h save stage => advanceRelease s t h save stage o
  | .retire w ctx stage => advanceRetire cfg s w ctx stage o
  | .reap w started stage => advanceReap cfg s t w started stage o
  | .unreserve id slot => if o = .go then advanceUnreserve s id slot else none

/-! ### Dropped futures -/

/-- The task of a dropped `SpawnReservation`; `cleanup_slot` is set once the slot
was built. -/
def reservationDrop : RetireStage → List Pc
  | .spawn id => [.unreserve id false]
  | .install id failed => [.unreserve id failed.isNone]
  | _ => []

/-- Drop the future of task `t`, suspended at `pc`: its locks end and its armed
guards spawn their tasks. Spawned tasks have no owner that could drop them: those
of the guards, of the idle reap and of `Drop for PooledSessionState` up to its
release. `warm_min` is awaited by `main`. -/
def dropTask (s : Pool) (t : TaskId) : Pc → Option Move
  | .lease _ _ .handle => some ⟨s, .done .ok, []⟩
  | .lease k _ .inner => some ⟨s.unlockHandle k, .done .ok, []⟩
  | .lease k _ (.scan ..) => some ⟨s.unlockInner.unlockHandle k, .done .ok, []⟩
  | .lease k _ (.spawn id) => some ⟨s.unlockHandle k, .done .ok, [.unreserve id false]⟩
  | .lease k _ (.install id failed) =>
    some ⟨s.unlockHandle k, .done .ok, [.unreserve id failed.isNone]⟩
  | .call _ _ _ _ .lock => some ⟨s, .done .ok, []⟩
  | .call _ h _ _ .child => some ⟨s.unlockCall h.workerId, .done .ok, []⟩
  | .call _ h _ _ .await =>
    some ⟨s.unlockCall h.workerId, .done .ok,
      [.retire h.workerId (.guard t h.sessionId) .take]⟩
  | .dispatchHandle .. | .dispatchClear .. | .openStore .. | .takeHandle _ _ false =>
    some ⟨s, .done .ok, []⟩
  | .release h _ .lock =>
    some ⟨s, .done (.abandoned h.workerId), [.retire h.workerId (.guard t h.sessionId) .take]⟩
  | .release h _ (.idleCheck exit) => some ⟨s, .done (.released h.workerId exit), []⟩
  | .release h _ _ =>
    some ⟨s.unlockCall h.workerId, .done (.abandoned h.workerId),
      [.retire h.workerId (.guard t h.sessionId) .take]⟩
  | .retire w (.call _ sessionId _ _) stage =>
    some ⟨s.unlockCall w, .done .ok,
      .retire w (.guard t sessionId) .take :: reservationDrop stage⟩
  | .retire w (.release sessionId _ _) stage =>
    some ⟨s.unlockCall w, .done (.abandoned w),
      .retire w (.guard t sessionId) .take :: reservationDrop stage⟩
  | .retire _ (.dispatch ..) stage => some ⟨s, .done .ok, reservationDrop stage⟩
  | _ => none

/-! ### The actions -/

/-- The session whose `&self` the task borrows. -/
def Pc.borrows : Pc → Option SessionRef
  | .lease k _ _ | .call k _ _ _ _ | .dispatchHandle k _ _ | .dispatchClear k _ _ _
  | .openStore k _ _ | .takeHandle k _ false | .retire _ (.call k _ _ _) _
  | .retire _ (.dispatch k _ _) _ => some k
  | _ => none

/-- A new operation on session `k`, which must not have been dropped. -/
def start (s : World) (k : SessionRef) (pc : Pc) : Option World :=
  match s.mem.sessions k with
  | none => none
  | some se => if se.dropped then none else some (s.spawn [pc])

def step (cfg : Config) (s : World) : Act → Option World
  | .newSession sessionId =>
    if s.mem.serving then some { s with mem := s.mem.addSession sessionId } else none
  | .openObserved k timeoutSecs => start s k (.lease k (cfg.opTimeout timeoutSecs) .handle)
  | .callTool k tool timeoutSecs =>
    start s k (.dispatchHandle k tool (cfg.opTimeout timeoutSecs))
  | .closeWithSave k save => start s k (.takeHandle k save false)
  | .dropSession k =>
    match s.mem.sessions k with
    | none => none
    | some se =>
      if se.dropped ∨ ∃ t < s.next, (s.tasks t).bind Pc.borrows = some k then none
      else some (Tasks.World.spawn
        { s with mem := s.mem.setSession k { se with dropped := true } } [.takeHandle k true true])
  | .shutdownAll =>
    if s.mem.inner ≠ none ∨ !s.mem.serving then none
    else some (s.spawn (s.mem.children.map fun w => .retire w .shutdown .take))
  | .tick => some { s with mem := { s.mem with now := s.mem.now + 1 } }
  | .advance t o => ((s.tasks t).bind (advance cfg s.mem t o)).map (s.resume t)
  | .drop t => ((s.tasks t).bind (dropTask s.mem t)).map (s.resume t)

/-- The worlds some run of the pool reaches. -/
def Reachable (cfg : Config) (s : World) : Prop := Runs.Reaches (step cfg) (init cfg) s

end IdaHeadless.WorkerPool
