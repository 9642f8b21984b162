import IdaHeadless.MainLoop.Step
import IdaHeadless.RequestChannel
import IdaHeadless.Tasks

/-!
# Background DSC opens over one worker (server/mod.rs, ida/worker.rs)

Clients and background tasks share a worker: its loop serves the requests of one
bounded channel in order. A task of `run_dsc_background` opens a database, loads its
images into it, and closes it again when it fails or is cancelled after the open. The
channel's log keeps the database that was open when a request was taken.
-/

namespace IdaHeadless.Dsc
open MainLoop RequestChannel

abbrev TaskId := ℕ

/- How the loop served a request: the database open before, and what it did. -/
structure Service where
  before : Option Idb
  turn : Turn

/- The sender is a background task, or a client. -/
abbrev Requests := Channel (Option TaskId) IdaRequest Service

/- `DscBackgroundOpen`: how the database comes about. -/
inductive DscBackgroundOpen where
  | directRawDsc (openPath : String)
  | legacyIdat (outI64 : String)

/- `DscBackgroundCtx`, less the owner of the close token. -/
structure DscBackgroundCtx where
  openFrom : DscBackgroundOpen
  image : String
  frameworks : List String

/- Why an opened database is closed again: `finish_dsc_cancellation_after_open` or
`finish_dsc_tool_error_after_open`. -/
inductive Cleanup where
  | cancellation
  | toolError (e : ToolError)

/- What the task registry is told in the end. -/
inductive Settlement where
  | completed
  | toolError (e : ToolError)
  | cancelled (message : String)
  | cleanupError (message : String)
  | failed (message : String)
  | unchanged

/- The awaits of `run_dsc_background`; `g` is the generation its open returned and `k` the
ticket of the request under way. -/
inductive Pc where
  | start (ctx : DscBackgroundCtx)
  | idat (ctx : DscBackgroundCtx) (outI64 : String)
  | awaitOpen (ctx : DscBackgroundCtx) (images : Bool) (k : ℕ)
  | awaitModule (ctx : DscBackgroundCtx) (g k : ℕ)
  | awaitFramework (name : String) (rest : List String) (g k : ℕ)
  | awaitStatus (g k : ℕ)
  | complete (g : ℕ)
  | sendClose (g : ℕ) (why : Cleanup)
  | awaitClose (g : ℕ) (why : Cleanup) (k : ℕ)
  | done (settlement : Settlement)

structure Mem where
  loop : Loop
  requests : Requests
  cancelled : TaskId → Bool

abbrev World := Tasks.World Mem Pc
abbrev Move := Tasks.Move Mem Pc

/- `TaskCompletionDecision` of the registry. -/
inductive Decision where
  | completed
  | cancellationPending
  | unchanged

/- What the outside adds to a step of a task. -/
inductive Outcome where
  | go
  | timedOut
  | idatKilled
  | idatWaitFailed (message : String)
  | idatExited (problem : Option String)
  | sendTimedOut
  | decided (d : Decision)

inductive Act where
  | client (r : IdaRequest)
  | spawn (ctx : DscBackgroundCtx)
  | cancel (t : TaskId)
  | advance (t : TaskId) (o : Outcome)
  | serve (ans : Answers)
  | interrupt (signal : ℕ)
  | exitNow

section Worker
variable (capacity : ℕ)

/-! ### The worker's handle -/

/- `try_send`: the next ticket, if the loop is there and the channel has room. -/
def trySend (m : Mem) (sender : Option TaskId) (r : IdaRequest) : Except ToolError (Mem × ℕ) :=
  if m.loop.phase ≠ .running then .error .workerClosed
  else if capacity ≤ m.requests.queue.length then .error .busy
  else .ok ({ m with requests := m.requests.push sender r }, m.requests.next)

/- The answer to a request: an answer the loop never sends is a closed worker. -/
def received (m : Mem) (k : ℕ) : Option (Except ToolError Reply) :=
  match m.requests.answer k with
  | some service =>
    match service.turn.reply with
    | some (.err e) => some (.error e)
    | some .dropped | none => some (.error .workerClosed)
    | some reply => some (.ok reply)
  | none => if m.loop.phase ≠ .running then some (.error .workerClosed) else none

/- `recv_with_timeout`. -/
def receivedInTime (m : Mem) (k : ℕ) : Outcome → Option (Except ToolError Reply)
  | .timedOut => some (.error (.timeout 600))
  | _ => received m k

/-! ### `run_dsc_background` -/

/- Send a request and wait for it, or go on with the error. -/
def sendThen (m : Mem) (t : TaskId) (r : IdaRequest) (next : ℕ → Pc) (failed : ToolError → Pc) :
    Move :=
  match trySend capacity m (some t) r with
  | .ok (m', k) => ⟨m', next k, []⟩
  | .error e => ⟨m, failed e, []⟩

/- Phase 2: the open, whose failure settles the task. -/
def openPhase (m : Mem) (t : TaskId) (ctx : DscBackgroundCtx) (path : String) (images : Bool) :
    Move :=
  sendThen capacity m t (.openDb path true) (.awaitOpen ctx images) fun e => .done (.toolError e)

/- After the images, and at the end: a cancelled task closes its database. -/
def completing (m : Mem) (t : TaskId) (g : ℕ) : Pc :=
  if m.cancelled t then .sendClose g .cancellation else .complete g

def moduleError (image : String) (e : ToolError) : ToolError :=
  .idaError ("Failed to load DSC module " ++ image ++ ": " ++ e.display)

def frameworkError (name : String) (e : ToolError) : ToolError :=
  .idaError ("Failed to load DSC framework " ++ name ++ ": " ++ e.display)

/- The next framework, or the analysis status when there is none left. -/
def nextFramework (m : Mem) (t : TaskId) (g : ℕ) : List String → Move
  | name :: rest =>
    sendThen capacity m t (.dscLoadImage name (some g)) (.awaitFramework name rest g)
      fun e => .sendClose g (.toolError (frameworkError name e))
  | [] =>
    sendThen capacity m t (.analysisStatus (some g)) (.awaitStatus g) fun _ => completing m t g

/- An image load has ended. -/
def afterImage (m : Mem) (t : TaskId) (g : ℕ) (failure : ToolError → ToolError)
    (rest : List String) (result : Except ToolError Reply) : Move :=
  if m.cancelled t then ⟨m, .sendClose g .cancellation, []⟩
  else
    match result with
    | .error e => ⟨m, .sendClose g (.toolError (failure e)), []⟩
    | .ok _ => nextFramework capacity m t g rest

/- The open has ended. -/
def afterOpen (m : Mem) (t : TaskId) (ctx : DscBackgroundCtx) (images : Bool)
    (result : Except ToolError Reply) : Option Move :=
  match result with
  | .error e => some ⟨m, .done (.toolError e), []⟩
  | .ok (.opened _ g) =>
    if m.cancelled t then some ⟨m, .sendClose g .cancellation, []⟩
    else if images then
      some (sendThen capacity m t (.dscLoadImage ctx.image (some g)) (.awaitModule ctx g)
        fun e => .sendClose g (.toolError (moduleError ctx.image e)))
    else some ⟨m, completing m t g, []⟩
  | .ok _ => none

/- The end of a cleanup. -/
def cleanedUp (g : ℕ) (why : Cleanup) (result : Except ToolError Reply) : Settlement :=
  match why, result with
  | .toolError e, .ok _ => .toolError e
  | .cancellation, .ok (.closedIf .closed) =>
    .cancelled "Cancelled after the active DSC operation settled and its database closed"
  | .cancellation, .ok _ =>
    .cancelled ("Cancelled after the active DSC operation settled; its database generation " ++
      "was already replaced")
  | .toolError e, .error close =>
    .cleanupError (e.display ++ "; cleanup failed for database generation " ++ toString g ++ ": " ++
      close.display)
  | .cancellation, .error close =>
    .cleanupError ("Cancellation cleanup failed for database generation " ++ toString g ++ ": " ++
      close.display)

/- Phase 1 of a legacy open: `idat` makes the database. -/
def afterIdat (m : Mem) (t : TaskId) (ctx : DscBackgroundCtx) (outI64 : String) :
    Outcome → Option Move
  | .idatKilled =>
    if m.cancelled t then
      some ⟨m, .done (.cancelled
        "Cancelled; the idat subprocess was killed and its partial output removed"), []⟩
    else none
  | .idatWaitFailed e => some ⟨m, .done (.failed ("failed to wait for idat: " ++ e)), []⟩
  | .idatExited problem =>
    if m.cancelled t then
      some ⟨m, .done (.cancelled "Cancelled after the idat subprocess settled"), []⟩
    else
      match problem with
      | some message => some ⟨m, .done (.toolError (.openFailed message)), []⟩
      | none => some (openPhase capacity m t ctx outI64 false)
  | _ => none

/- Resume a background task. -/
def advance (m : Mem) (t : TaskId) (o : Outcome) : Pc → Option Move
  | .start ctx =>
    if m.cancelled t then some ⟨m, .done (.cancelled "Cancelled by session shutdown"), []⟩
    else
      match ctx.openFrom with
      | .directRawDsc path => some (openPhase capacity m t ctx path true)
      | .legacyIdat outI64 => some ⟨m, .idat ctx outI64, []⟩
  | .idat ctx outI64 => afterIdat capacity m t ctx outI64 o
  | .awaitOpen ctx images k => (received m k).bind (afterOpen capacity m t ctx images)
  | .awaitModule ctx g k =>
    (receivedInTime m k o).map (afterImage capacity m t g (moduleError ctx.image) ctx.frameworks)
  | .awaitFramework name rest g k =>
    (receivedInTime m k o).map (afterImage capacity m t g (frameworkError name) rest)
  | .awaitStatus g k => (received m k).map fun _ => ⟨m, completing m t g, []⟩
  | .complete g =>
    match o with
    | .decided .completed => some ⟨m, .done .completed, []⟩
    | .decided .cancellationPending => some ⟨m, .sendClose g .cancellation, []⟩
    | .decided .unchanged => some ⟨m, .done .unchanged, []⟩
    | _ => none
  | .sendClose g why =>
    -- `send_with_retry` tries again while the channel is full.
    match trySend capacity m (some t) (.closeIfGeneration g), o with
    | .ok (m', k), _ => some ⟨m', .awaitClose g why k, []⟩
    | .error .busy, .sendTimedOut => some ⟨m, .done (cleanedUp g why (.error .busy)), []⟩
    | .error .busy, _ => some ⟨m, .sendClose g why, []⟩
    | .error e, _ => some ⟨m, .done (cleanedUp g why (.error e)), []⟩
  | .awaitClose g why k =>
    (received m k).map fun result => ⟨m, .done (cleanedUp g why result), []⟩
  | .done _ => none

end Worker

/-! ### The system -/

/- The loop takes the next request. -/
def serveNext (pathsMatch : String → String → Bool) (m : Mem) (ans : Answers) : Option Mem :=
  match m.requests.queue with
  | [] => none
  | msg :: rest =>
    if m.loop.phase = .running then
      let turn := turn pathsMatch m.loop msg.request ans
      some { m with
        loop := turn.state
        requests := m.requests.serve msg rest ⟨m.loop.idb, turn⟩ }
    else none

/- The loop leaves or the process exits, without a request. -/
def loopEvent (pathsMatch : String → String → Bool) (m : Mem) (a : MainLoop.Act) : Option Mem :=
  (MainLoop.step pathsMatch m.loop a).map fun loop => { m with loop := loop }

def step (pathsMatch : String → String → Bool) (capacity : ℕ) (w : World) : Act → Option World
  | .client r =>
    match trySend capacity w.mem none r with
    | .ok (m, _) => some { w with mem := m }
    | .error _ => some w
  | .spawn ctx => some (w.spawn [.start ctx])
  | .cancel t =>
    some { w with mem := { w.mem with cancelled := Function.update w.mem.cancelled t true } }
  | .advance t o =>
    ((w.tasks t).bind (advance capacity w.mem t o)).map (w.resume t)
  | .serve ans => (serveNext pathsMatch w.mem ans).map fun m => { w with mem := m }
  | .interrupt signal => (loopEvent pathsMatch w.mem (.interrupt signal)).map fun m =>
    { w with mem := m }
  | .exitNow => (loopEvent pathsMatch w.mem .exitNow).map fun m => { w with mem := m }

def init (libInitialized : Bool) (installFault : Option String) : World where
  mem := ⟨start libInitialized installFault, Channel.empty, fun _ => false⟩
  tasks := fun _ => none
  next := 0

end IdaHeadless.Dsc
