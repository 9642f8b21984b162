import IdaHeadless.MainLoop.Step
import IdaHeadless.RequestChannel
import IdaHeadless.Tasks

/-!
# The close-token lease (ida/worker.rs, server/tools/database.rs)

Several HTTP clients share one worker. A successful `open_idb` is followed by a lease on
the right to close the database, and `close_idb` asks for it: it is authorized, sends a
`Close` through the worker's channel, waits for the answer and clears the lease. Each of
these is a step of its own, and so are the open and the issue of its token.

The fields that only the statements read are marked as history: which lifetime was open
when a close was authorized, which lifetime a token was issued for.
-/

namespace IdaHeadless.CloseToken
open MainLoop RequestChannel

/-! ### `CloseTokenState` -/

/- `lifetime`: the database the opener had got (history). -/
structure CloseTokenLease where
  token : String
  ownerSessionId : String
  lifetime : Option ℕ
  deriving DecidableEq

structure CloseTokenGrant where
  token : String
  reused : Bool
  ownerSessionId : String
  deriving DecidableEq

inductive CloseAuthorization where
  | granted
  | grantedByOverride (previousOwnerSessionId : String)
  | denied (ownerSessionId : String)
  deriving DecidableEq

/- `token` is what `generate_token` returns if it is called. -/
def issueForSession (lease : Option CloseTokenLease) (sessionId token : String)
    (lifetime : Option ℕ) : Except String CloseTokenGrant × Option CloseTokenLease :=
  match lease with
  | some l =>
    if l.ownerSessionId = sessionId then (.ok ⟨l.token, true, l.ownerSessionId⟩, lease)
    else (.error l.ownerSessionId, lease)
  | none => (.ok ⟨token, false, sessionId⟩, some ⟨token, sessionId, lifetime⟩)

def authorizeClose (lease : Option CloseTokenLease) (sessionId : String) (token : Option String)
    (force : Bool) : CloseAuthorization :=
  match lease with
  | none => .granted
  | some l =>
    if token = some l.token ∨ l.ownerSessionId = sessionId then .granted
    else if force then .grantedByOverride l.ownerSessionId
    else .denied l.ownerSessionId

/-! ### Calls -/

/- A `close_idb` that was authorized; `openAt` is the lifetime open then (history). -/
structure CloseCall where
  sessionId : String
  force : Bool
  save : Bool
  openAt : Option ℕ
  deriving DecidableEq

/- How the loop served a request: the database open before, and what it did. -/
structure Service where
  before : Option Idb
  turn : Turn

/- The sender is the `close_idb` call of a `Close`. -/
abbrev Requests := Channel (Option CloseCall) IdaRequest Service

/- Where a call waits: an `open_idb` for its answer and then before the issue of its token, a
`close_idb` or `close_if_generation` before it can send, for its answer, and before it
clears the lease. `closed` is the lifetime it has closed (history). -/
inductive Pc where
  | awaitOpen (sessionId : String) (k : ℕ)
  | opened (sessionId : String) (lifetime : Option ℕ)
  | sendClose (call : CloseCall)
  | awaitClose (k : ℕ)
  | sendCloseIf (generation : ℕ)
  | awaitCloseIf (k : ℕ)
  | clear (closed : Option ℕ)
  | done

/- `latest` is the lifetime that was begun last, `issued` the tokens that were handed out
and for which lifetime (history). -/
structure Mem where
  loop : Loop
  requests : Requests
  lease : Option CloseTokenLease
  latest : Option ℕ
  issued : List (String × Option ℕ)

abbrev World := Tasks.World Mem Pc
abbrev Move := Tasks.Move Mem Pc

/- The database that is open in a worker that runs. -/
def loopCurrent (s : Loop) : Option Idb := if s.phase = .running then s.idb else none

def Mem.current (m : Mem) : Option Idb := loopCurrent m.loop

def Mem.lifetime (m : Mem) : Option ℕ := m.current.map Idb.lifetime

/- What the outside adds to a step: the fresh token, the end of `send_with_retry`, or that the
call's future was dropped. -/
inductive Outcome where
  | go
  | token (token : String)
  | sendTimedOut
  | dropped

inductive Act where
  | openIdb (sessionId path : String)
  | closeIdb (sessionId : String) (token : Option String) (force save : Bool)
  | closeIf (generation : ℕ)
  | request (r : IdaRequest)
  | advance (t : ℕ) (o : Outcome)
  | serve (ans : Answers)
  | loopEvent (a : MainLoop.Act)

section Worker
variable (capacity : ℕ)

/- `try_send`: the channel with the request, if the loop is there and has room for it. -/
def trySend (m : Mem) (sender : Option CloseCall) (r : IdaRequest) : Except ToolError Mem :=
  if m.loop.phase ≠ .running then .error .workerClosed
  else if capacity ≤ m.requests.queue.length then .error .busy
  else .ok { m with requests := m.requests.push sender r }

/- The answer to a request. A responder that was dropped is a closed worker. -/
def received (m : Mem) (k : ℕ) : Option (Except ToolError (Service × Reply)) :=
  match m.requests.answer k with
  | some service =>
    match service.turn.reply with
    | some (.err e) => some (.error e)
    | some .dropped | none => some (.error .workerClosed)
    | some reply => some (.ok (service, reply))
  | none => if m.loop.phase ≠ .running then some (.error .workerClosed) else none

/- `send_with_retry`: a full channel is tried again until the time is over. -/
def sendWithRetry (m : Mem) (sender : Option CloseCall) (r : IdaRequest) (o : Outcome)
    (wait : Pc) (sent : ℕ → Pc) : Move :=
  match trySend capacity m sender r, o with
  | .ok m', _ => ⟨m', sent m.requests.next, []⟩
  | .error .busy, .sendTimedOut => ⟨m, .done, []⟩
  | .error .busy, _ => ⟨m, wait, []⟩
  | .error _, _ => ⟨m, .done, []⟩

/- `http_close_grant` of the opener; only a new lease needs a token. -/
def issue (m : Mem) (sessionId token : String) (lifetime : Option ℕ) : Mem :=
  match issueForSession m.lease sessionId token lifetime with
  | (.ok grant, lease) =>
    { m with lease := lease, issued := (grant.token, lifetime) :: m.issued }
  | (.error _, _) => m

/- After the answer to the open: its lifetime, or the end of the call. -/
def afterOpen (m : Mem) (sessionId : String) : Except ToolError (Service × Reply) → Move
  | .ok (service, .opened _ _) =>
    ⟨m, .opened sessionId (service.turn.state.idb.map Idb.lifetime), []⟩
  | _ => ⟨m, .done, []⟩

/- A close that was answered goes on to clear the lease. -/
def afterClose (m : Mem) : Except ToolError (Service × Reply) → Move
  | .ok (service, .closed) | .ok (service, .closedIf .closed) =>
    ⟨m, .clear (service.before.map Idb.lifetime), []⟩
  | _ => ⟨m, .done, []⟩

/- `Uuid::new_v4` never returns a token twice. -/
def resumeCall (m : Mem) (o : Outcome) : Pc → Option Move
  | .awaitOpen sessionId k => (received m k).map (afterOpen m sessionId)
  | .opened sessionId lifetime =>
    match o with
    | .token token =>
      if token ∈ m.issued.map Prod.fst then none
      else some ⟨issue m sessionId token lifetime, .done, []⟩
    | _ => none
  | .sendClose call =>
    some (sendWithRetry capacity m (some call) (.close call.save) o (.sendClose call) .awaitClose)
  | .sendCloseIf generation =>
    some (sendWithRetry capacity m none (.closeIfGeneration generation) o (.sendCloseIf generation)
      .awaitCloseIf)
  | .awaitClose k | .awaitCloseIf k => (received m k).map (afterClose m)
  | .clear _ => some ⟨{ m with lease := none }, .done, []⟩
  | .done => none

def advance (m : Mem) (o : Outcome) (pc : Pc) : Option Move :=
  match o with
  | .dropped => some ⟨m, .done, []⟩
  | _ => resumeCall capacity m o pc

/- The start of `open_idb` and of `close_idb`, as far as the first await. -/
def startOpen (m : Mem) (sessionId path : String) : Mem × List Pc :=
  match trySend capacity m none (.openDb path true) with
  | .ok m' => (m', [.awaitOpen sessionId m.requests.next])
  | .error _ => (m, [])

def startClose (m : Mem) (sessionId : String) (token : Option String) (force save : Bool) :
    List Pc :=
  match authorizeClose m.lease sessionId token force with
  | .denied _ => []
  | .granted | .grantedByOverride _ => [.sendClose ⟨sessionId, force, save, m.lifetime⟩]

end Worker

/-! ### The system -/

/- The loop after an event; a database that was not open before begins a lifetime. -/
def Mem.setLoop (m : Mem) (loop : Loop) : Mem :=
  { m with
    loop := loop
    latest := ((loopCurrent loop).map Idb.lifetime).or m.latest }

def serveNext (pathsMatch : String → String → Bool) (m : Mem) (ans : Answers) : Option Mem :=
  match m.requests.queue with
  | [] => none
  | msg :: rest =>
    if m.loop.phase = .running then
      let turn := turn pathsMatch m.loop msg.request ans
      some { m.setLoop turn.state with
        requests := m.requests.serve msg rest ⟨m.loop.idb, turn⟩ }
    else none

/- What reaches the loop without the channel: an interrupt, the end of the channel, the exit. -/
def loopEvent (pathsMatch : String → String → Bool) (m : Mem) (a : MainLoop.Act) : Option Mem :=
  match a with
  | .request .. => none
  | .interrupt _ | .disconnected | .exitNow => (MainLoop.step pathsMatch m.loop a).map m.setLoop

def step (pathsMatch : String → String → Bool) (capacity : ℕ) (w : World) : Act → Option World
  | .openIdb sessionId path =>
    some (Tasks.World.spawn { w with mem := (startOpen capacity w.mem sessionId path).1 }
      (startOpen capacity w.mem sessionId path).2)
  | .closeIdb sessionId token force save =>
    some (w.spawn (startClose w.mem sessionId token force save))
  | .closeIf generation => some (w.spawn [.sendCloseIf generation])
  | .request r =>
    match trySend capacity w.mem none r with
    | .ok m => some { w with mem := m }
    | .error _ => some w
  | .advance t o => ((w.tasks t).bind (advance capacity w.mem o)).map (w.resume t)
  | .serve ans => (serveNext pathsMatch w.mem ans).map fun m => { w with mem := m }
  | .loopEvent a => (loopEvent pathsMatch w.mem a).map fun m => { w with mem := m }

def init (libInitialized : Bool) (installFault : Option String) : World where
  mem := ⟨start libInitialized installFault, Channel.empty, none, none, []⟩
  tasks := fun _ => none
  next := 0

end IdaHeadless.CloseToken
