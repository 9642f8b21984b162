import IdaHeadless.Runs
import IdaHeadless.Tasks
import IdaHeadless.ToolError
import Mathlib.Data.List.AList
import Mathlib.Data.List.Sort

/-!
# The sessions of the supervisor (supervisor/session.rs)

A `SessionManager` keeps its sessions in two maps, by id and by canonical path.
The maps are behind a lock that no future holds across an await, so a section
under it is one transition. Two kinds of lock are held across awaits and appear
with their holder: `open_lock`, by the one `open` under way, and the `lifecycle`
lock of a session, by whoever calls, closes or replaces it.

The worker behind a session is a `PooledSessionState`. What it answers, and
whether it still has a live database, comes from outside as the outcome of an
await.
-/

namespace IdaHeadless.SessionManager

abbrev TaskId := ℕ
/- Which `Arc<ManagedSession>`: `Arc::ptr_eq` compares these. -/
abbrev SessionRef := ℕ

/- What a session asks of its worker. -/
inductive Request where
  | call (tool : String)
  | close (save : Bool)
  deriving DecidableEq, Repr

/- `ManagedSession`, with the id from its `info`. Times are nanoseconds; `sent` records
the requests to the worker, oldest first. -/
structure Session where
  sessionId : String
  canonicalPath : String
  idleTtlSec : ℕ
  lastAccess : ℕ
  activeCalls : ℕ
  currentCall : Option String
  lifecycle : Option TaskId
  sent : List Request
  deriving DecidableEq, Repr

/- `OpenSessionRequest`, less the flags that only shape the analysis and the warmup. -/
structure OpenSessionRequest where
  inputPath : String
  mode : String
  idleTtlSec : ℕ
  preferredSessionId : Option String
  deriving DecidableEq, Repr

/- The awaits of `open`; `path` is the canonical path, `id` and `m` the session found
under it. -/
inductive OpenStage where
  | lock
  | find (path : String)
  | lifecycle (path id : String) (m : SessionRef)
  | current (path id : String) (m : SessionRef)
  | live (path id : String) (m : SessionRef)
  | discard (path id : String) (m : SessionRef)
  | discardClose (path id : String) (m : SessionRef)
  | touch (path id : String) (m : SessionRef)
  | claim (path : String)
  | opening (path id : String)
  | warming (path id : String)
  | insert (path id : String) (created : ℕ)
  deriving DecidableEq, Repr

/- The awaits of `list`; `seen` are the ids of the result so far. -/
inductive ListStage where
  | start
  | live (m : SessionRef) (rest : List SessionRef) (seen : List String)
  | lifecycle (m : SessionRef) (rest : List SessionRef) (seen : List String)
  | recheck (m : SessionRef) (rest : List SessionRef) (seen : List String)
  | remove (m : SessionRef) (rest : List SessionRef) (seen : List String)
  | closing (m : SessionRef) (rest : List SessionRef) (seen : List String)
  deriving DecidableEq, Repr

/- The awaits of `close`. -/
inductive CloseStage where
  | get
  | lifecycle (m : SessionRef)
  | remove (m : SessionRef)
  | info (m : SessionRef)
  | closing (m : SessionRef)
  deriving DecidableEq, Repr

/- Who awaits `close`: a client, or `shutdown` with the ids it has still to close. -/
inductive Closer where
  | client
  | shutdown (rest : List String)
  deriving DecidableEq, Repr

/- The awaits of `call_native_result`. -/
inductive CallStage where
  | get
  | lifecycle (m : SessionRef)
  | current (m : SessionRef)
  | access (m : SessionRef)
  | worker (m : SessionRef)
  | failed (m : SessionRef) (err : ToolError)
  | prune (m : SessionRef) (err : ToolError)
  | touch (m : SessionRef)
  deriving DecidableEq, Repr

/- The awaits of `reap_idle` and of the `close_if_idle` in it; `locked` tells the second
`is_idle_past_ttl` from the first. -/
inductive ReapStage where
  | start
  | idle (locked : Bool) (m : SessionRef) (rest : List SessionRef)
  | elapsed (locked : Bool) (m : SessionRef) (rest : List SessionRef)
  | lifecycle (m : SessionRef) (rest : List SessionRef)
  | remove (m : SessionRef) (rest : List SessionRef)
  | closing (m : SessionRef) (rest : List SessionRef)
  deriving DecidableEq, Repr

/- How a task ended. -/
inductive Exit where
  | opened (sessionId message : String)
  | listed (sessionIds : List String)
  | closed (saved : Option Bool) (message : String)
  | called
  | ended
  | err (e : ToolError)
  deriving DecidableEq, Repr

/- Where a task is suspended. -/
inductive Pc where
  | done (exit : Exit)
  | openSession (request : OpenSessionRequest) (stage : OpenStage)
  | list (stage : ListStage)
  | close (database : String) (save : Bool) (closer : Closer) (stage : CloseStage)
  | call (database tool : String) (stage : CallStage)
  | reap (stage : ReapStage)
  | shutdown
  deriving DecidableEq, Repr

/- The memory the tasks share: the two maps, the lock of `open`, and the session
objects. -/
structure Mem where
  byId : AList fun _ : String => SessionRef
  byPath : AList fun _ : String => String
  openLock : Option TaskId
  sessions : SessionRef → Option Session
  next : SessionRef
  now : ℕ

abbrev World := Tasks.World Mem Pc
abbrev Move := Tasks.Move Mem Pc

/- `SessionManager::new`. -/
def init : World where
  mem := ⟨∅, ∅, none, fun _ => none, 0, 0⟩
  tasks := fun _ => none
  next := 0

/-! ### Reading and writing -/

def Mem.idOf (s : Mem) (m : SessionRef) : Option String := (s.sessions m).map Session.sessionId
def Mem.pathOf (s : Mem) (m : SessionRef) : Option String :=
  (s.sessions m).map Session.canonicalPath
def Mem.holder (s : Mem) (m : SessionRef) : Option TaskId := (s.sessions m).bind Session.lifecycle
def Mem.activeCalls (s : Mem) (m : SessionRef) : ℕ :=
  ((s.sessions m).map Session.activeCalls).getD 0
def Mem.sentTo (s : Mem) (m : SessionRef) : List Request :=
  ((s.sessions m).map Session.sent).getD []

def Mem.set (s : Mem) (m : SessionRef) (se : Session) : Mem :=
  { s with sessions := Function.update s.sessions m (some se) }

def Mem.unlockOpen (s : Mem) : Mem := { s with openLock := none }

/- `remove_if_current`, where it finds `m` under `id`. -/
def Mem.removeCurrent (s : Mem) (id path : String) : Mem :=
  { s with
    byId := s.byId.erase id
    byPath := if s.byPath.lookup path = some id then s.byPath.erase path else s.byPath }

/- The removal in `close`, which does not look at the path's entry. -/
def Mem.removeClosed (s : Mem) (id path : String) : Mem :=
  { s with byId := s.byId.erase id, byPath := s.byPath.erase path }

/- The end of `open`: the new session, in both maps. -/
def Mem.register (s : Mem) (path id : String) (idleTtlSec created : ℕ) : Mem :=
  { s with
    byPath := s.byPath.insert path id
    byId := s.byId.insert id s.next
    sessions := Function.update s.sessions s.next
      (some ⟨id, path, idleTtlSec, created, 0, none, none, []⟩)
    next := s.next + 1 }

def Session.lock (se : Session) (t : TaskId) : Session := { se with lifecycle := some t }
def Session.unlock (se : Session) : Session := { se with lifecycle := none }
def Session.send (se : Session) (r : Request) : Session := { se with sent := se.sent ++ [r] }

/- `begin_call` and `Drop for ActiveCall`. -/
def Session.beginCall (se : Session) (tool : String) : Session :=
  { se with currentCall := some tool, activeCalls := se.activeCalls + 1 }
def Session.endCall (se : Session) : Session :=
  { se with currentCall := none, activeCalls := se.activeCalls - 1 }

/- `last_access` in `touch`. -/
def Session.touch (se : Session) (now : ℕ) : Session := { se with lastAccess := now }

def nanosPerSec : ℕ := 1000000000

/- The two reads of `is_idle_past_ttl`. -/
def Session.idle (se : Session) : Prop := se.idleTtlSec ≠ 0 ∧ se.activeCalls = 0
def Session.pastTtl (se : Session) (now : ℕ) : Prop :=
  se.idleTtlSec * nanosPerSec ≤ now - se.lastAccess

instance (se : Session) : Decidable se.idle := by
  unfold Session.idle
  infer_instance

instance (se : Session) (now : ℕ) : Decidable (se.pastTtl now) := by
  unfold Session.pastTtl
  infer_instance

/-! ### Texts and ids -/

/- `char::is_whitespace`. -/
def isWhitespace (c : Char) : Bool :=
  (9 ≤ c.toNat && c.toNat ≤ 13) || (0x2000 ≤ c.toNat && c.toNat ≤ 0x200A) ||
    [0x20, 0x85, 0xA0, 0x1680, 0x2028, 0x2029, 0x202F, 0x205F, 0x3000].contains c.toNat

/- `str::trim`. -/
def trim (text : String) : String :=
  String.ofList ((text.toList.dropWhile isWhitespace).reverse.dropWhile isWhitespace).reverse

/- `file_name` of a canonical path, which is the whole path where it has none. -/
def fileName (path : String) : String :=
  let name := String.ofList (path.toList.reverse.takeWhile (· ≠ '/')).reverse
  if name = "" then path else name

def unknownSession (database : String) : ToolError :=
  .idaError ("Unknown database session '" ++ database ++
    "'. Open a session with idb_open or enumerate with idb_list.")
def changedWhileClosing (database : String) : ToolError :=
  .idaError ("Database session '" ++ database ++ "' changed while closing")
def closedWhileWaiting (database : String) : ToolError :=
  .idaError ("Database session '" ++ database ++
    "' was closed while this call waited for it. Open it again with idb_open.")
def cancelledBeforeStart (operation : String) : ToolError :=
  .cancelled ("cancelled " ++ operation ++ " before it started")
def idInUse (sessionId : String) : ToolError :=
  .idaError ("preferred session ID is already in use: " ++ sessionId)
def toolUnavailable (tool : String) : ToolError :=
  .idaError ("Native worker tool '" ++ tool ++ "' is not available")

/- `validate_mode`. -/
def validateMode (mode : String) : Except ToolError Unit :=
  if mode = "prefer_headless" ∨ mode = "force_headless" ∨ mode = "prefer_gui" then .ok ()
  else if mode = "force_gui" then
    .error (.idaError "force_gui is unavailable in the headless-only Rust server")
  else .error (.idaError ("Invalid idb_open mode '" ++ mode ++
    "'; expected prefer_headless, force_headless, prefer_gui, or force_gui"))

/- `canonical_input_path`; `canonical` is what the file system says of the expanded path. -/
def canonicalInputPath (inputPath : String) (canonical : Except String String) :
    Except ToolError String :=
  if trim inputPath = "" then .error (.invalidPath inputPath)
  else match canonical with
    | .ok path => .ok path
    | .error text => .error (.invalidPath text)

/- `requested_session_id`; `uuid` is the generated one. -/
def requestedSessionId (preferred : Option String) (uuid : String) : Except ToolError String :=
  match (preferred.map trim).filter (· ≠ "") with
  | none => .ok uuid
  | some id =>
    if 128 < id.utf8ByteSize ∨ ¬ id.toList.all fun c => c.isAlphanum || "-_.".toList.contains c then
      .error (.idaError
        "preferred_session_id must be 1-128 ASCII letters, digits, '-', '_', or '.'")
    else .ok id

end IdaHeadless.SessionManager
