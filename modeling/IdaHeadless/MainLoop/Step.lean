import IdaHeadless.MainLoop.State
import Mathlib.Algebra.Group.Nat.Defs

/-!
# One iteration of the worker loop (ida/main_loop.rs, crash_guard.rs)

An iteration passes three gates before it reaches the arm of its request: a caught
fatal signal, the deferred initialization of the library, and an installation fault.
`database_paths_match` is a parameter: the loop asks nothing of it.
-/

namespace IdaHeadless.MainLoop

/-! ### `crash_guard` -/

def workerRetiredMarker : String := "worker retired after a fatal signal"

def retiredError (signal : ℕ) : ToolError :=
  .workerRetired (workerRetiredMarker ++
    ": an earlier operation crashed inside the IDA SDK (signal " ++ toString signal ++
    "), so this worker is shutting down instead of serving a database it can no longer be " ++
    "trusted with. Open the binary again with idb_open to continue on a fresh worker.")

/- The error of the call that crashed. -/
def crashError (operation : String) (signal : ℕ) : ToolError :=
  .workerRetired (operation ++ " crashed inside the IDA SDK (signal " ++ toString signal ++ "); " ++
    workerRetiredMarker ++
    ". The jump out of the signal handler skipped the destructors IDA was " ++
    "owed, so this worker is being terminated rather than asked another question, and its " ++
    "database session is invalidated. Open the binary again with idb_open to continue on a " ++
    "fresh worker. This is a bug in the IDA SDK, not in ida-mcp.")

/- `crash_guarded`: a crash is recorded and answered. -/
def crashGuarded (s : Loop) (operation : String) (h : HandlerResult) : Turn :=
  match s.caughtSignal with
  | some signal => ⟨s, some (.err (retiredError signal)), []⟩
  | none =>
    match h with
    | .ok => ⟨s, some .handled, [.handler s.idb]⟩
    | .err e => ⟨s, some (.err e), [.handler s.idb]⟩
    | .noResult =>
      ⟨s, some (.err (.idaError (operation ++ ": callback did not produce a result"))),
        [.handler s.idb]⟩
    | .crash signal =>
      ⟨{ s with caughtSignal := some signal }, some (.err (crashError operation signal)),
        [.handler s.idb]⟩

/- A handler outside the guard takes the process with it when it crashes. -/
def runHandler (s : Loop) (operation : Option String) (h : HandlerResult) : Turn :=
  match operation with
  | some operation => crashGuarded s operation h
  | none =>
    match h with
    | .ok | .noResult => ⟨s, some .handled, [.handler s.idb]⟩
    | .err e => ⟨s, some (.err e), [.handler s.idb]⟩
    | .crash _ => ⟨{ s with phase := .exited }, some .dropped, [.handler s.idb]⟩

/-! ### Closing and leaving -/

/- `release_mcp_lock`. -/
def releaseMcpLock (s : Loop) : Loop := { s with lockFile := false, lockPath := none }

/- The drop of the open database, which packs it. -/
def dropCalls (s : Loop) (save : Bool) : List IdaCall :=
  (s.idb.map fun db => IdaCall.dropDatabase db save).toList

/- `shutdown_cleanup`. The generation stays behind; nobody reads it any more. -/
def shutdownCleanup (s : Loop) : Loop := releaseMcpLock { s with idb := none }

/- What follows the loop: after a caught signal the database is leaked. -/
def leave (s : Loop) : Loop :=
  match s.caughtSignal with
  | some _ => releaseMcpLock { s with idb := none, phase := .exited }
  | none => { s with phase := .returned }

/- `interrupted_shutdown`. -/
def interruptedShutdown (s : Loop) : Turn :=
  ⟨{ shutdownCleanup s with phase := .exited }, none,
    if s.caughtSignal.isSome then [] else dropCalls s true⟩

/-! ### Refusals -/

/- `cancel_token` and the check of it. -/
def IdaRequest.hasToken : IdaRequest → Bool
  | .openDb _ cancel | .analyzeFuncs cancel | .runScript cancel => cancel
  | _ => false

def IdaRequest.cancelled (r : IdaRequest) (ans : Answers) (check : ℕ) : Bool :=
  r.hasToken && ans.cancelledFrom.any (· ≤ check)

/- `ensure_not_cancelled`. -/
def cancelledError : ToolError := .cancelled "Operation cancelled by client"

/- `reject_with_error`: a `Close` cannot say that it failed. -/
def reject (r : IdaRequest) (e : ToolError) : Option Reply :=
  match r with
  | .shutdown => none
  | .close _ => some .closed
  | _ => some (.err e)

/- A request after a caught signal. -/
def refuseRetired (s : Loop) (r : IdaRequest) (signal : ℕ) : Turn :=
  match r with
  | .shutdown => ⟨leave s, none, []⟩
  | .close _ => ⟨s, some .dropped, []⟩
  | _ => ⟨s, reject r (retiredError signal), []⟩

/- `require_generation`. -/
def requireGeneration (expected current : Option ℕ) : Except ToolError Unit :=
  match expected with
  | none => .ok ()
  | some g => if current = some g then .ok () else .error .databaseReplaced

/-! ### Opening -/

/- `handle_open`: an open database is kept, and returned if it is the one asked for.
Otherwise IDA opens one, and a failure leaves nothing behind. -/
def handleOpen (pathsMatch : String → String → Bool) (s : Loop) (path : String) (cancelled : Bool)
    (result : OpenResult) : Loop × Except ToolError String × List IdaCall :=
  if cancelled then (s, .error cancelledError, [])
  else
    match s.idb with
    | some db =>
      if pathsMatch db.path path then (s, .ok db.path, [.handler (some db)])
      else (s, .error (.databaseAlreadyOpen db.path), [])
    | none =>
      match result with
      | .failed e => (s, .error e, [.openDatabase path])
      | .opened dbPath lockPath =>
        ({ s with
            idb := some ⟨dbPath, s.lifetimes⟩
            lifetimes := s.lifetimes + 1
            lockFile := true
            lockPath := some lockPath }, .ok dbPath, [.openDatabase path])

/- What the loop does with a database `handle_open` has put into `idb`. -/
def newGeneration (s : Loop) (path : String) (calls : List IdaCall) : Turn :=
  if s.nextDatabaseGeneration + 1 < 2 ^ 64 then
    let generation := s.nextDatabaseGeneration + 1
    ⟨{ s with nextDatabaseGeneration := generation, databaseGeneration := some generation },
      some (.opened path generation), calls⟩
  else
    ⟨releaseMcpLock { s with idb := none },
      some (.err (.idaError "database generation counter exhausted")), calls ++ dropCalls s true⟩

/- The arm of `Open`. -/
def openArm (pathsMatch : String → String → Bool) (s : Loop) (path : String) (cancel : Bool)
    (ans : Answers) : Turn :=
  let request := IdaRequest.openDb path cancel
  if request.cancelled ans 1 then ⟨s, some (.err cancelledError), []⟩
  else
    match handleOpen pathsMatch s path (request.cancelled ans 2) ans.opened with
    | (s', .error e, calls) => ⟨s', some (.err e), calls⟩
    | (s', .ok dbPath, calls) =>
      match s'.databaseGeneration with
      | some generation =>
        if s.idb.isSome then ⟨s', some (.opened dbPath generation), calls⟩
        else newGeneration s' dbPath calls
      | none => newGeneration s' dbPath calls

/-! ### The loop -/

/- An arm that is bound to a generation. -/
def boundArm (s : Loop) (expected : Option ℕ) (operation : String) (h : HandlerResult) : Turn :=
  match requireGeneration expected s.databaseGeneration with
  | .error e => ⟨s, some (.err e), []⟩
  | .ok _ => runHandler s (some operation) h

/- An arm that checks its token first. -/
def tokenArm (s : Loop) (cancelled : Bool) (operation : String) (h : HandlerResult) : Turn :=
  if cancelled then ⟨s, some (.err cancelledError), []⟩ else runHandler s (some operation) h

def dispatch (pathsMatch : String → String → Bool) (s : Loop) (r : IdaRequest) (ans : Answers) :
    Turn :=
  match r with
  | .openDb path cancel => openArm pathsMatch s path cancel ans
  | .close save =>
    ⟨releaseMcpLock { s with idb := none, databaseGeneration := none }, some .closed,
      dropCalls s save⟩
  | .closeIfGeneration generation =>
    if s.databaseGeneration = some generation then
      ⟨releaseMcpLock { s with idb := none, databaseGeneration := none },
        some (.closedIf .closed), dropCalls s true⟩
    else ⟨s, some (.closedIf .notCurrent), []⟩
  | .analysisStatus expected => boundArm s expected "handle_analysis_status" ans.handler
  | .dscLoadImage _ expected => boundArm s expected "handle_dsc_load_image" ans.handler
  | .analyzeFuncs _ => tokenArm s (r.cancelled ans 1) "handle_analyze_funcs" ans.handler
  | .runScript _ => tokenArm s (r.cancelled ans 1) "handle_run_script" ans.handler
  | .tool t => runHandler s t.operation ans.handler
  | .shutdown => ⟨leave (shutdownCleanup s), none, dropCalls s true⟩

/- The gate of an installation fault. -/
def serve (pathsMatch : String → String → Bool) (s : Loop) (r : IdaRequest) (ans : Answers) :
    Turn :=
  match s.installFault with
  | none => dispatch pathsMatch s r ans
  | some fault =>
    match r with
    | .shutdown => ⟨leave (shutdownCleanup s), none, dropCalls s true⟩
    | _ => ⟨s, reject r (.idaInstallFault fault), []⟩

/- The gate of the deferred initialization. -/
def initThenServe (pathsMatch : String → String → Bool) (s : Loop) (r : IdaRequest)
    (ans : Answers) : Turn :=
  if r.cancelled ans 0 then ⟨s, reject r cancelledError, []⟩
  else
    match ans.init with
    | .error message =>
      ⟨s, reject r (.idaError ("failed to initialize IDA on the main thread: " ++ message)),
        [.initLibrary]⟩
    | .ok fault =>
      let t := serve pathsMatch { s with libInitialized := true, installFault := fault } r ans
      { t with calls := .initLibrary :: t.calls }

/- One request, from the channel to its answer. -/
def turn (pathsMatch : String → String → Bool) (s : Loop) (r : IdaRequest) (ans : Answers) : Turn :=
  match s.caughtSignal with
  | some signal => refuseRetired s r signal
  | none =>
    if s.libInitialized then serve pathsMatch s r ans else initThenServe pathsMatch s r ans

def event (pathsMatch : String → String → Bool) (s : Loop) : Act → Turn
  | .request r ans => turn pathsMatch s r ans
  | .interrupt _ => interruptedShutdown s
  | .disconnected => ⟨leave s, none, []⟩
  | .exitNow => ⟨if s.caughtSignal.isSome then { s with phase := .exited } else s, none, []⟩

/- Only a running loop takes steps. -/
def step (pathsMatch : String → String → Bool) (s : Loop) (a : Act) : Option Loop :=
  if s.phase = .running then some (event pathsMatch s a).state else none

/- `run_ida_loop` from the state the startup preflight leaves. -/
def start (libInitialized : Bool) (installFault : Option String) : Loop where
  idb := none
  databaseGeneration := none
  nextDatabaseGeneration := 0
  lockFile := false
  lockPath := none
  libInitialized := libInitialized
  installFault := installFault
  caughtSignal := none
  lifetimes := 0
  phase := .running

/-! ### The library -/

section Library
variable {pathsMatch : String → String → Bool} {s : Loop} {r : IdaRequest} {ans : Answers}

/- The arms of the requests do not touch the library. -/
structure SameLibrary (s t : Loop) : Prop where
  initialized : t.libInitialized = s.libInitialized
  fault : t.installFault = s.installFault

theorem SameLibrary.trans {t u : Loop} (h : SameLibrary s t) (h' : SameLibrary t u) :
    SameLibrary s u :=
  ⟨h'.initialized.trans h.initialized, h'.fault.trans h.fault⟩

theorem runHandler_library (operation : Option String) (h : HandlerResult) :
    SameLibrary s (runHandler s operation h).state := by
  cases operation with
  | some operation =>
    simp only [runHandler, crashGuarded]
    split
    · exact ⟨rfl, rfl⟩
    · cases h <;> exact ⟨rfl, rfl⟩
  | none => cases h <;> exact ⟨rfl, rfl⟩

theorem newGeneration_library (path : String) (calls : List IdaCall) :
    SameLibrary s (newGeneration s path calls).state := by
  unfold newGeneration
  split
  · exact ⟨rfl, rfl⟩
  · exact ⟨rfl, rfl⟩

theorem handleOpen_library (path : String) (cancelled : Bool) (result : OpenResult) :
    SameLibrary s (handleOpen pathsMatch s path cancelled result).1 := by
  unfold handleOpen
  split
  · exact ⟨rfl, rfl⟩
  · split
    · split
      · exact ⟨rfl, rfl⟩
      · exact ⟨rfl, rfl⟩
    · split
      · exact ⟨rfl, rfl⟩
      · exact ⟨rfl, rfl⟩

theorem openArm_library (path : String) (cancel : Bool) (ans : Answers) :
    SameLibrary s (openArm pathsMatch s path cancel ans).state := by
  have hopen : SameLibrary s (handleOpen pathsMatch s path
      ((IdaRequest.openDb path cancel).cancelled ans 2) ans.opened).1 :=
    handleOpen_library path _ ans.opened
  unfold openArm
  dsimp only
  split
  · exact ⟨rfl, rfl⟩
  · split
    · rename_i heq
      rw [heq] at hopen
      exact hopen
    · rename_i s' dbPath calls heq
      rw [heq] at hopen
      split
      · split
        · exact hopen
        · exact hopen.trans (newGeneration_library dbPath calls)
      · exact hopen.trans (newGeneration_library dbPath calls)

theorem leave_library : SameLibrary s (leave s) := by
  unfold leave
  split
  · exact ⟨rfl, rfl⟩
  · exact ⟨rfl, rfl⟩

theorem dispatch_library : SameLibrary s (dispatch pathsMatch s r ans).state := by
  cases r with
  | openDb path cancel => exact openArm_library path cancel ans
  | close save => exact ⟨rfl, rfl⟩
  | closeIfGeneration g =>
    simp only [dispatch]
    split
    · exact ⟨rfl, rfl⟩
    · exact ⟨rfl, rfl⟩
  | analysisStatus expected | dscLoadImage image expected =>
    simp only [dispatch, boundArm]
    split
    · exact ⟨rfl, rfl⟩
    · exact runHandler_library _ _
  | analyzeFuncs cancel | runScript cancel =>
    simp only [dispatch, tokenArm]
    split
    · exact ⟨rfl, rfl⟩
    · exact runHandler_library _ _
  | tool t => exact runHandler_library _ _
  | shutdown =>
    simp only [dispatch]
    exact ⟨leave_library.initialized, leave_library.fault⟩

end Library

end IdaHeadless.MainLoop
