import IdaHeadless.SessionManager.State

/-!
# The transitions of the session manager (supervisor/session.rs)

`step tools s a` is the manager after action `a`, or `none` where the action is not
enabled. `tools` is `native_worker_tool`, the lookup in the tool catalog. Each
function below says what one task does between two awaits.
-/

namespace IdaHeadless.SessionManager

/- What ended the await of the resumed task: a lock was free (`go`), the file system
resolved the input path, the map was iterated, `has_live_database` returned, an id was
generated, the worker answered, or the request's token was cancelled. -/
inductive Outcome where
  | go
  | canonical (path : Except String String)
  | snapshot (ms : List SessionRef)
  | keys (ids : List String)
  | live (alive : Bool)
  | uuid (id : String)
  | answered (err : Option ToolError)
  | cancelled

inductive Act where
  | openSession (request : OpenSessionRequest)
  | list
  | close (database : String) (save : Bool)
  | call (database tool : String)
  | reapIdle
  | shutdown
  | tick (nanos : ℕ)
  | advance (t : TaskId) (o : Outcome)
  | drop (t : TaskId)

/- Take the lifecycle lock of `m` and go on at `pc`. -/
def lockThen (s : Mem) (t : TaskId) (m : SessionRef) (pc : Pc) : Option Move :=
  match s.sessions m with
  | none => none
  | some se => if se.lifecycle ≠ none then none else some ⟨s.set m (se.lock t), pc, []⟩

/- Change session `m` and go on at `pc`. -/
def updateThen (s : Mem) (m : SessionRef) (f : Session → Session) (pc : Pc) : Option Move :=
  match s.sessions m with
  | none => none
  | some se => some ⟨s.set m (f se), pc, []⟩

/- `remove_if_current`: `yes` is the session and the next await where it removed the
session, `no` where it did not. -/
def removeThen (s : Mem) (id : String) (m : SessionRef) (yes no : (Session → Session) × Pc) :
    Option Move :=
  match s.sessions m with
  | none => none
  | some se =>
    if s.byId.lookup id = some m then
      some ⟨(s.removeCurrent id se.canonicalPath).set m (yes.1 se), yes.2, []⟩
    else some ⟨s.set m (no.1 se), no.2, []⟩

/-! ### `open` -/

def openedMessage (path id : String) : String :=
  "Binary opened: " ++ fileName path ++ " (" ++ id ++ ")"
def reusedMessage (path id : String) : String :=
  "Binary already open: " ++ fileName path ++ " (" ++ id ++ ")"

def advanceOpen (s : Mem) (t : TaskId) (r : OpenSessionRequest) :
    OpenStage → Outcome → Option Move
  | .lock, .canonical canonical =>
    if s.openLock ≠ none then none
    else match canonicalInputPath r.inputPath canonical with
      | .error err => some ⟨s, .done (.err err), []⟩
      | .ok path => some ⟨{ s with openLock := some t }, .openSession r (.find path), []⟩
  | .lock, .cancelled => some ⟨s, .done (.err (cancelledBeforeStart "idb_open")), []⟩
  | .find path, .go =>
    match (s.byPath.lookup path).bind fun id => (s.byId.lookup id).map fun m => (id, m) with
    | none => some ⟨s, .openSession r (.claim path), []⟩
    | some (id, m) => some ⟨s, .openSession r (.lifecycle path id m), []⟩
  | .lifecycle path id m, .go => lockThen s t m (.openSession r (.current path id m))
  | .lifecycle _ _ _, .cancelled =>
    some ⟨s.unlockOpen, .done (.err (cancelledBeforeStart "idb_open")), []⟩
  | .current path id m, .go =>
    if s.byId.lookup id = some m then some ⟨s, .openSession r (.live path id m), []⟩
    else updateThen s m Session.unlock (.openSession r (.claim path))
  | .live path id m, .live alive =>
    some ⟨s, .openSession r (if alive then .touch path id m else .discard path id m), []⟩
  | .discard path id m, .go =>
    removeThen s id m (fun se => se.send (.close false), .openSession r (.discardClose path id m))
      (fun se => se.send (.close false), .openSession r (.discardClose path id m))
  | .discardClose path _ m, .answered _ =>
    updateThen s m Session.unlock (.openSession r (.claim path))
  | .touch path id m, .go =>
    updateThen s.unlockOpen m (fun se => (se.touch s.now).unlock)
      (.done (.opened id (reusedMessage path id)))
  | .claim path, .uuid uuid =>
    match requestedSessionId r.preferredSessionId uuid with
    | .error err => some ⟨s.unlockOpen, .done (.err err), []⟩
    | .ok id =>
      if s.byId.lookup id ≠ none then some ⟨s.unlockOpen, .done (.err (idInUse id)), []⟩
      else some ⟨s, .openSession r (.opening path id), []⟩
  | .opening path id, .answered none => some ⟨s, .openSession r (.warming path id), []⟩
  | .opening _ _, .answered (some err) => some ⟨s.unlockOpen, .done (.err err), []⟩
  | .warming path id, .answered _ => some ⟨s, .openSession r (.insert path id s.now), []⟩
  | .insert path id created, .go =>
    some ⟨(s.register path id r.idleTtlSec created).unlockOpen,
      .done (.opened id (openedMessage path id)), []⟩
  | _, _ => none

/-! ### `list` -/

/- On to the next session of the snapshot, or to the sorted result. -/
def listNext (rest : List SessionRef) (seen : List String) : Pc :=
  match rest with
  | m :: rest => .list (.live m rest seen)
  | [] => .done (.listed (seen.insertionSort (· ≤ ·)))

def advanceList (s : Mem) (t : TaskId) : ListStage → Outcome → Option Move
  | .start, .snapshot ms =>
    if ms.Perm (s.byId.entries.map Sigma.snd) then some ⟨s, listNext ms [], []⟩ else none
  | .live m rest seen, .live true =>
    (s.idOf m).map fun id => ⟨s, listNext rest (seen ++ [id]), []⟩
  | .live m rest seen, .live false => some ⟨s, .list (.lifecycle m rest seen), []⟩
  | .lifecycle m rest seen, .go => lockThen s t m (.list (.recheck m rest seen))
  | .recheck m rest seen, .live true =>
    (s.idOf m).bind fun id => updateThen s m Session.unlock (listNext rest (seen ++ [id]))
  | .recheck m rest seen, .live false => some ⟨s, .list (.remove m rest seen), []⟩
  | .remove m rest seen, .go =>
    (s.idOf m).bind fun id => removeThen s id m
      (fun se => se.send (.close false), .list (.closing m rest seen))
      (Session.unlock, listNext rest seen)
  | .closing m rest seen, .answered _ => updateThen s m Session.unlock (listNext rest seen)
  | _, _ => none

/-! ### `close` and `shutdown` -/

/- `close` returned; `shutdown` ignores the result and closes the next session. -/
def closeEnd (closer : Closer) (exit : Exit) : Pc :=
  match closer with
  | .client => .done exit
  | .shutdown (id :: rest) => .close id true (.shutdown rest) .get
  | .shutdown [] => .done .ended

def closedExit (database path : String) (save : Bool) : Exit :=
  .closed (if save then some true else none)
    ("Session closed: " ++ fileName path ++ " (" ++ database ++ ")")

def advanceClose (s : Mem) (t : TaskId) (database : String) (save : Bool) (closer : Closer) :
    CloseStage → Outcome → Option Move
  | .get, .go =>
    match s.byId.lookup database with
    | none => some ⟨s, closeEnd closer (.err (unknownSession database)), []⟩
    | some m => some ⟨s, .close database save closer (.lifecycle m), []⟩
  | .lifecycle m, .go => lockThen s t m (.close database save closer (.remove m))
  | .remove m, .go =>
    match s.byId.lookup database, s.sessions m with
    | none, some se =>
      some ⟨s.set m se.unlock, closeEnd closer (.err (unknownSession database)), []⟩
    | some m', some se =>
      if m' = m then
        some ⟨s.removeClosed database se.canonicalPath, .close database save closer (.info m), []⟩
      else some ⟨s.set m se.unlock, closeEnd closer (.err (changedWhileClosing database)), []⟩
    | _, none => none
  | .info m, .go =>
    updateThen s m (fun se => se.send (.close save)) (.close database save closer (.closing m))
  | .closing m, .answered err =>
    match s.sessions m with
    | none => none
    | some se => some ⟨s.set m se.unlock, closeEnd closer (match err with
        | some e => .err e
        | none => closedExit database se.canonicalPath save), []⟩
  | _, _ => none

/-! ### `call_native_result` -/

def advanceCall (tools : String → Option String) (s : Mem) (t : TaskId) (database tool : String) :
    CallStage → Outcome → Option Move
  | .get, .go =>
    match s.byId.lookup database with
    | none => some ⟨s, .done (.err (unknownSession database)), []⟩
    | some m => some ⟨s, .call database tool (.lifecycle m), []⟩
  | .get, .cancelled => some ⟨s, .done (.err (cancelledBeforeStart tool)), []⟩
  | .lifecycle m, .go => lockThen s t m (.call database tool (.current m))
  | .lifecycle _, .cancelled => some ⟨s, .done (.err (cancelledBeforeStart tool)), []⟩
  | .current m, .go =>
    if s.byId.lookup database = some m then
      updateThen s m (fun se => se.beginCall tool) (.call database tool (.access m))
    else updateThen s m Session.unlock (.done (.err (closedWhileWaiting database)))
  | .access m, .go =>
    match tools tool with
    | none => updateThen s m (fun se => ((se.touch s.now).endCall).unlock)
        (.done (.err (toolUnavailable tool)))
    | some worker => updateThen s m (fun se => (se.touch s.now).send (.call worker))
        (.call database tool (.worker m))
  | .worker m, .answered none =>
    updateThen s m Session.endCall (.call database tool (.touch m))
  | .worker m, .answered (some err) =>
    updateThen s m Session.endCall (.call database tool (.failed m err))
  | .failed m err, .live true => updateThen s m Session.unlock (.done (.err err))
  | .failed m err, .live false => some ⟨s, .call database tool (.prune m err), []⟩
  | .prune m err, .go =>
    removeThen s database m (Session.unlock, .done (.err err)) (Session.unlock, .done (.err err))
  | .touch m, .go => updateThen s m (fun se => (se.touch s.now).unlock) (.done .called)
  | _, _ => none

/-! ### `reap_idle` -/

/- On to `close_if_idle` of the next session of the snapshot. -/
def reapNext : List SessionRef → Pc
  | m :: rest => .reap (.idle false m rest)
  | [] => .done .ended

/- `close_if_idle` found the session in use. -/
def reapSkip (s : Mem) (locked : Bool) (m : SessionRef) (rest : List SessionRef) : Option Move :=
  if locked then updateThen s m Session.unlock (reapNext rest) else some ⟨s, reapNext rest, []⟩

def advanceReap (s : Mem) (t : TaskId) : ReapStage → Outcome → Option Move
  | .start, .snapshot ms =>
    if ms.Perm (s.byId.entries.map Sigma.snd) then some ⟨s, reapNext ms, []⟩ else none
  | .idle locked m rest, .go =>
    match s.sessions m with
    | none => none
    | some se =>
      if se.idle then some ⟨s, .reap (.elapsed locked m rest), []⟩ else reapSkip s locked m rest
  | .elapsed locked m rest, .go =>
    match s.sessions m with
    | none => none
    | some se =>
      if se.pastTtl s.now then
        some ⟨s, .reap (if locked then .remove m rest else .lifecycle m rest), []⟩
      else reapSkip s locked m rest
  | .lifecycle m rest, .go => lockThen s t m (.reap (.idle true m rest))
  | .remove m rest, .go =>
    (s.idOf m).bind fun id => removeThen s id m
      (fun se => se.send (.close true), .reap (.closing m rest)) (Session.unlock, reapNext rest)
  | .closing m rest, .answered _ => updateThen s m Session.unlock (reapNext rest)
  | _, _ => none

/- Resume task `t`, which waits at `pc`. -/
def advance (tools : String → Option String) (s : Mem) (t : TaskId) (o : Outcome) :
    Pc → Option Move
  | .done _ => none
  | .openSession r stage => advanceOpen s t r stage o
  | .list stage => advanceList s t stage o
  | .close database save closer stage => advanceClose s t database save closer stage o
  | .call database tool stage => advanceCall tools s t database tool stage o
  | .reap stage => advanceReap s t stage o
  | .shutdown =>
    match o with
    | .keys ids =>
      if ids.Perm s.byId.keys then some ⟨s, closeEnd (.shutdown ids) .ended, []⟩ else none
    | _ => none

/-! ### Dropped futures -/

/- The session whose lifecycle lock the task holds. -/
def Pc.locks : Pc → Option SessionRef
  | .openSession _ (.current _ _ m) | .openSession _ (.live _ _ m) | .openSession _ (.discard _ _ m)
  | .openSession _ (.discardClose _ _ m) | .openSession _ (.touch _ _ m)
  | .list (.recheck m _ _) | .list (.remove m _ _) | .list (.closing m _ _)
  | .close _ _ _ (.remove m) | .close _ _ _ (.info m) | .close _ _ _ (.closing m)
  | .call _ _ (.current m) | .call _ _ (.access m) | .call _ _ (.worker m)
  | .call _ _ (.failed m _) | .call _ _ (.prune m _) | .call _ _ (.touch m)
  | .reap (.idle true m _) | .reap (.elapsed true m _) | .reap (.remove m _)
  | .reap (.closing m _) => some m
  | _ => none

/- The session a call is registered on. -/
def Pc.calls : Pc → Option SessionRef
  | .call _ _ (.access m) | .call _ _ (.worker m) => some m
  | _ => none

/- The task holds `open_lock`. -/
def Pc.opens : Pc → Bool
  | .openSession _ .lock => false
  | .openSession _ _ => true
  | _ => false

/- Drop the future of a task suspended at `pc`: its `ActiveCall` and its guards end. -/
def dropTask (s : Mem) (pc : Pc) : Option Move :=
  let s' := if pc.opens then s.unlockOpen else s
  match pc with
  | .done _ => none
  | _ =>
    match pc.locks with
    | none => some ⟨s', .done .ended, []⟩
    | some m =>
      updateThen s' m (fun se => (if pc.calls = some m then se.endCall else se).unlock)
        (.done .ended)

/-! ### The actions -/

def step (tools : String → Option String) (s : World) : Act → Option World
  | .openSession r =>
    match validateMode r.mode with
    | .error err => some (s.spawn [.done (.err err)])
    | .ok _ => some (s.spawn [.openSession r .lock])
  | .list => some (s.spawn [.list .start])
  | .close database save => some (s.spawn [.close database save .client .get])
  | .call database tool => some (s.spawn [.call database tool .get])
  | .reapIdle => some (s.spawn [.reap .start])
  | .shutdown => some (s.spawn [.shutdown])
  | .tick nanos => some { s with mem := { s.mem with now := s.mem.now + nanos } }
  | .advance t o => ((s.tasks t).bind (advance tools s.mem t o)).map (s.resume t)
  | .drop t => ((s.tasks t).bind (dropTask s.mem)).map (s.resume t)

/- The worlds some run of the manager reaches. -/
def Reachable (tools : String → Option String) (s : World) : Prop :=
  Runs.Reaches (step tools) init s

end IdaHeadless.SessionManager
