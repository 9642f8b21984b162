import IdaHeadless.LegacySse.Frames
import IdaHeadless.Runs

/-!
# The legacy transport (supervisor/legacy_sse.rs)

A GET opens a session and its event stream. A POST names a session and hands one message to the
session's server. What `LegacyBodyStream::drop` and a failed `handle_post` do is one step for each
lock or token they touch, and everything else can happen between them.

The entry of a session in the map is its key: the sender and the token in it are those of the
session, and an id is generated once. When the server of a session ends, and whether its end
cancels the token, is up to `rmcp`. A server that has ended has dropped its input; `rmcp` may hold
the output half longer and still send replies.
-/

namespace IdaHeadless.LegacySse

def inputChannelCapacity : ℕ := 16

abbrev Bytes := List UInt8

/-- `M` are the client's messages, `R` the server's. `fromSlice` and `toString` are those of
`serde_json`. -/
structure Config (M R : Type) where
  keepAlive : Bool
  maxRequestBodyBytes : ℕ
  fromSlice : Bytes → Except String M
  toString : R → List Char

/-! ### Responses -/

inductive StatusCode where
  | accepted | badRequest | payloadTooLarge
  deriving DecidableEq

structure Response where
  status : StatusCode
  body : String ⊕ Bytes
  deriving DecidableEq

def textResponse (status : StatusCode) (message : String) : Response := ⟨status, .inl message⟩

def missingSession : Response := textResponse .badRequest "Missing ?session for SSE POST"

def noConnection (sessionId : String) : Response :=
  textResponse .badRequest ("No active SSE connection found for session " ++ sessionId)

/-! ### Sessions -/

/- The stream of a session: the session is in the map but the stream is not made yet, the client
may read it, and the three moments of its drop. -/
inductive Stage where
  | inserted | streaming | removed | cancelled | gone
  deriving DecidableEq

inductive Server where
  | unstarted | running | ended
  deriving DecidableEq

/- `accepted`, `taken`, `replies`, `written` and `read` are histories: the messages that came into
the channel with the numbers of their POSTs, the messages the server took, the messages it sent,
and the events that were sent to the stream and that the client's connection has taken from it. -/
structure Session (M R : Type) where
  stage : Stage
  token : Bool
  server : Server
  keepAlive : Bool
  input : List M
  output : List (List Char × List Char)
  accepted : List (ℕ × M)
  taken : List M
  replies : List R
  written : List (List Char × List Char)
  read : List (List Char × List Char)

inductive Body where
  | collected (bytes : Bytes)
  | failed (error : String)

inductive PostStage (M : Type) where
  | body
  | sending (bytes : Bytes) (message : M)
  | failing
  | done (response : Response)
  | abandoned
  deriving DecidableEq

structure Post (M : Type) where
  session : Option String
  stage : PostStage M
  deriving DecidableEq

/- `token` is the token of the service, the parent of all others. -/
structure World (M R : Type) where
  sessions : List String
  session : String → Option (Session M R)
  posts : List (Post M)
  token : Bool

variable {M R : Type}

def start : World M R := ⟨[], fun _ => none, [], false⟩

def World.set (w : World M R) (id : String) (s : Session M R) : World M R :=
  { w with session := Function.update w.session id (some s) }

def World.answer (w : World M R) (p : ℕ) (session : Option String) (stage : PostStage M) :
    World M R :=
  { w with posts := w.posts.set p ⟨session, stage⟩ }

/-! ### `open_stream` -/

def openedSession (token : Bool) : Session M R where
  stage := .inserted
  token := token
  server := .unstarted
  keepAlive := false
  input := []
  output := []
  accepted := []
  taken := []
  replies := []
  written := []
  read := []

/- `output_tx.send`: after the stream is gone nothing is sent. -/
def Session.write (s : Session M R) (event data : List Char) : Session M R :=
  if s.stage = .gone then s
  else { s with output := s.output ++ [(event, data)], written := s.written ++ [(event, data)] }

def endpointEvent (id : String) : List Char × List Char :=
  (['e', 'n', 'd', 'p', 'o', 'i', 'n', 't'], ("/sse?session=" ++ id).toList)

def pingEvent : List Char × List Char := (['p', 'i', 'n', 'g'], ['{', '}'])

def messageEvent (data : List Char) : List Char × List Char :=
  (['m', 'e', 's', 's', 'a', 'g', 'e'], data)

/- The first event, the keep-alive task and the server. -/
def Session.announce (s : Session M R) (keepAlive : Bool) (id : String) : Session M R :=
  { s.write (endpointEvent id).1 (endpointEvent id).2 with
    stage := .streaming, keepAlive := keepAlive, server := .running }

/-! ### `handle_post` -/

/- Up to the body: the session is looked up once. -/
def postStage (w : World M R) (session : Option String) : PostStage M :=
  match session with
  | none => .done missingSession
  | some id => if id ∈ w.sessions then .body else .done (noConnection id)

def bodyStage (cfg : Config M R) (body : Body) : PostStage M :=
  match body with
  | .collected bytes =>
    if cfg.maxRequestBodyBytes < bytes.length then
      .done (textResponse .payloadTooLarge ("Payload Too Large: request body exceeds " ++
        Nat.repr cfg.maxRequestBodyBytes ++ " bytes"))
    else
      match cfg.fromSlice bytes with
      | .ok message => .sending bytes message
      | .error error =>
        .done (textResponse .badRequest ("Bad Request: invalid JSON-RPC message: " ++ error))
  | .failed error =>
    .done (textResponse .badRequest ("Bad Request: failed to read request body: " ++ error))

/-! ### Steps -/

/-- What happens to one session and touches neither the map nor a POST. -/
inductive SessionAct (R : Type) where
  | announce
  | take
  | reply (message : R)
  | serverEnds (cancels : Bool)
  | ping
  | keepAliveEnds
  | readFrame
  | cancelStream
  | closeStream

inductive Act (R : Type) where
  | insert (id : String)
  | session (id : String) (a : SessionAct R)
  | dropStream (id : String)
  | post (session : Option String)
  | body (p : ℕ) (body : Body)
  | send (p : ℕ)
  | sendFailed (p : ℕ)
  | forget (p : ℕ)
  | abandon (p : ℕ)
  | cancelService

def sessionStep (cfg : Config M R) (id : String) (s : Session M R) :
    SessionAct R → Option (Session M R)
  | .announce => if s.stage = .inserted then some (s.announce cfg.keepAlive id) else none
  | .take =>
    match s.input with
    | message :: input =>
      if s.server = .running then
        some { s with input := input, taken := s.taken ++ [message] }
      else none
    | [] => none
  | .reply message =>
    if s.server ≠ .unstarted then
      -- without a receiver the message is lost
      if s.stage = .gone then some s
      else
        some { s.write (messageEvent (cfg.toString message)).1 (cfg.toString message) with
          replies := s.replies ++ [message] }
    else none
  | .serverEnds cancels =>
    if s.server = .running then
      some { s with server := .ended, input := [], token := s.token || cancels }
    else none
  | .ping => if s.keepAlive then some (s.write pingEvent.1 pingEvent.2) else none
  | .keepAliveEnds =>
    if s.keepAlive ∧ (s.token ∨ s.stage = .gone) then some { s with keepAlive := false } else none
  | .readFrame =>
    match s.output with
    | event :: output =>
      if s.stage = .streaming then some { s with output := output, read := s.read ++ [event] }
      else none
    | [] => none
  | .cancelStream =>
    if s.stage = .removed then some { s with stage := .cancelled, token := true } else none
  | .closeStream =>
    if s.stage = .cancelled then some { s with stage := .gone, output := [] } else none

def sendStep (w : World M R) (p : ℕ) (id : String) (bytes : Bytes) (message : M)
    (s : Session M R) : Option (World M R) :=
  if s.server ≠ .ended ∧ s.input.length < inputChannelCapacity then
    some ((w.set id { s with
        input := s.input ++ [message], accepted := s.accepted ++ [(p, message)] }).answer
      p (some id) (.done ⟨.accepted, .inr bytes⟩))
  else none

def step (cfg : Config M R) (w : World M R) : Act R → Option (World M R)
  | .insert id =>
    match w.session id with
    | some _ => none
    | none => some { w.set id (openedSession w.token) with sessions := id :: w.sessions }
  | .session id a =>
    (w.session id).bind fun s => (sessionStep cfg id s a).map fun s' => w.set id s'
  | .dropStream id =>
    (w.session id).bind fun s =>
      if s.stage = .streaming then
        some { w.set id { s with stage := .removed } with sessions := w.sessions.erase id }
      else none
  | .post session => some { w with posts := w.posts ++ [⟨session, postStage w session⟩] }
  | .body p body =>
    match w.posts[p]? with
    | some ⟨session, .body⟩ => some (w.answer p session (bodyStage cfg body))
    | _ => none
  | .send p =>
    match w.posts[p]? with
    | some ⟨some id, .sending bytes message⟩ =>
      (w.session id).bind fun s => sendStep w p id bytes message s
    | _ => none
  | .sendFailed p =>
    match w.posts[p]? with
    | some ⟨some id, .sending _ _⟩ =>
      (w.session id).bind fun s =>
        if s.server = .ended then
          some ((w.set id { s with token := true }).answer p (some id) .failing)
        else none
    | _ => none
  | .forget p =>
    match w.posts[p]? with
    | some ⟨some id, .failing⟩ =>
      some ({ w with sessions := w.sessions.erase id }.answer p (some id) (.done (noConnection id)))
    | _ => none
  | .abandon p =>
    match w.posts[p]? with
    | some ⟨session, .body⟩ | some ⟨session, .sending _ _⟩ =>
      some (w.answer p session .abandoned)
    | _ => none
  | .cancelService =>
    some { w with
      token := true
      session := fun id => (w.session id).map fun s => { s with token := true } }

/-! ### What a step can do -/

variable {cfg : Config M R} {w w' : World M R} {id : String} {s s' : Session M R}

/-- One session by itself. -/
inductive SessionMoves (cfg : Config M R) (id : String) (s : Session M R) : Session M R → Prop
  | announce (hstage : s.stage = .inserted) :
    SessionMoves cfg id s (s.announce cfg.keepAlive id)
  | take (message : M) (input : List M) (hinput : s.input = message :: input)
      (hserver : s.server = .running) :
    SessionMoves cfg id s { s with input := input, taken := s.taken ++ [message] }
  | lost (hstage : s.stage = .gone) : SessionMoves cfg id s s
  | reply (message : R) (hserver : s.server ≠ .unstarted) (hstage : s.stage ≠ .gone) :
    SessionMoves cfg id s
      { s.write (messageEvent (cfg.toString message)).1 (cfg.toString message) with
        replies := s.replies ++ [message] }
  | serverEnds (cancels : Bool) (hserver : s.server = .running) :
    SessionMoves cfg id s { s with server := .ended, input := [], token := s.token || cancels }
  | ping (hkeep : s.keepAlive = true) : SessionMoves cfg id s (s.write pingEvent.1 pingEvent.2)
  | keepAliveEnds : SessionMoves cfg id s { s with keepAlive := false }
  | readFrame (event : List Char × List Char) (output : List (List Char × List Char))
      (houtput : s.output = event :: output) (hstage : s.stage = .streaming) :
    SessionMoves cfg id s { s with output := output, read := s.read ++ [event] }
  | cancelStream (hstage : s.stage = .removed) :
    SessionMoves cfg id s { s with stage := .cancelled, token := true }
  | closeStream (hstage : s.stage = .cancelled) :
    SessionMoves cfg id s { s with stage := .gone, output := [] }

theorem sessionStep_moves {a : SessionAct R} (h : sessionStep cfg id s a = some s') :
    SessionMoves cfg id s s' := by
  cases a with
  | announce =>
    obtain ⟨hstage, hs'⟩ := Option.ite_none_right_eq_some.mp h
    cases hs'
    exact .announce hstage
  | take =>
    rw [sessionStep] at h
    split at h
    · rename_i message input hinput
      obtain ⟨hserver, hs'⟩ := Option.ite_none_right_eq_some.mp h
      cases hs'
      exact .take message input hinput hserver
    · cases h
  | reply message =>
    obtain ⟨hserver, h⟩ := Option.ite_none_right_eq_some.mp h
    split at h
    · rename_i hstage
      cases h
      exact .lost hstage
    · rename_i hstage
      cases h
      exact .reply message hserver hstage
  | serverEnds cancels =>
    obtain ⟨hserver, hs'⟩ := Option.ite_none_right_eq_some.mp h
    cases hs'
    exact .serverEnds cancels hserver
  | ping =>
    obtain ⟨hkeep, hs'⟩ := Option.ite_none_right_eq_some.mp h
    cases hs'
    exact .ping hkeep
  | keepAliveEnds =>
    obtain ⟨-, hs'⟩ := Option.ite_none_right_eq_some.mp h
    cases hs'
    exact .keepAliveEnds
  | readFrame =>
    rw [sessionStep] at h
    split at h
    · rename_i event output houtput
      obtain ⟨hstage, hs'⟩ := Option.ite_none_right_eq_some.mp h
      cases hs'
      exact .readFrame event output houtput hstage
    · cases h
  | cancelStream =>
    obtain ⟨hstage, hs'⟩ := Option.ite_none_right_eq_some.mp h
    cases hs'
    exact .cancelStream hstage
  | closeStream =>
    obtain ⟨hstage, hs'⟩ := Option.ite_none_right_eq_some.mp h
    cases hs'
    exact .closeStream hstage

inductive Moves (cfg : Config M R) (w : World M R) : World M R → Prop
  | insert (id : String) (hnew : w.session id = none) :
    Moves cfg w { w.set id (openedSession w.token) with sessions := id :: w.sessions }
  | session (id : String) (s s' : Session M R) (hs : w.session id = some s)
      (hmoves : SessionMoves cfg id s s') : Moves cfg w (w.set id s')
  | dropStream (id : String) (s : Session M R) (hs : w.session id = some s)
      (hstage : s.stage = .streaming) :
    Moves cfg w { w.set id { s with stage := .removed } with sessions := w.sessions.erase id }
  | post (session : Option String) :
    Moves cfg w { w with posts := w.posts ++ [⟨session, postStage w session⟩] }
  | body (p : ℕ) (session : Option String) (body : Body)
      (hpost : w.posts[p]? = some ⟨session, .body⟩) :
    Moves cfg w (w.answer p session (bodyStage cfg body))
  | send (p : ℕ) (id : String) (bytes : Bytes) (message : M) (s : Session M R)
      (hpost : w.posts[p]? = some ⟨some id, .sending bytes message⟩)
      (hs : w.session id = some s) (hserver : s.server ≠ .ended)
      (hroom : s.input.length < inputChannelCapacity) :
    Moves cfg w ((w.set id { s with
        input := s.input ++ [message], accepted := s.accepted ++ [(p, message)] }).answer
      p (some id) (.done ⟨.accepted, .inr bytes⟩))
  | sendFailed (p : ℕ) (id : String) (bytes : Bytes) (message : M) (s : Session M R)
      (hpost : w.posts[p]? = some ⟨some id, .sending bytes message⟩)
      (hs : w.session id = some s) :
    Moves cfg w ((w.set id { s with token := true }).answer p (some id) .failing)
  | forget (p : ℕ) (id : String) (hpost : w.posts[p]? = some ⟨some id, .failing⟩) :
    Moves cfg w ({ w with sessions := w.sessions.erase id }.answer p (some id)
      (.done (noConnection id)))
  | abandon (p : ℕ) (session : Option String) (stage : PostStage M)
      (hpost : w.posts[p]? = some ⟨session, stage⟩) (hstage : ∀ r, stage ≠ .done r) :
    Moves cfg w (w.answer p session .abandoned)
  | cancelService :
    Moves cfg w { w with
      token := true
      session := fun id => (w.session id).map fun s => { s with token := true } }

theorem step_moves {a : Act R} (h : step cfg w a = some w') : Moves cfg w w' := by
  cases a with
  | insert id =>
    rw [step] at h
    split at h
    · cases h
    · rename_i hnew
      cases h
      exact .insert id hnew
  | session id a =>
    obtain ⟨s, hs, h⟩ := Option.bind_eq_some_iff.mp h
    obtain ⟨s', hs', rfl⟩ := Option.map_eq_some_iff.mp h
    exact .session id s s' hs (sessionStep_moves hs')
  | dropStream id =>
    obtain ⟨s, hs, h⟩ := Option.bind_eq_some_iff.mp h
    obtain ⟨hstage, h⟩ := Option.ite_none_right_eq_some.mp h
    cases h
    exact .dropStream id s hs hstage
  | post session =>
    cases h
    exact .post session
  | body p body =>
    rw [step] at h
    split at h
    · rename_i session hpost
      cases h
      exact .body p session body hpost
    · cases h
  | send p =>
    rw [step] at h
    split at h
    · rename_i id bytes message hpost
      obtain ⟨s, hs, h⟩ := Option.bind_eq_some_iff.mp h
      obtain ⟨⟨hserver, hroom⟩, h⟩ := Option.ite_none_right_eq_some.mp h
      cases h
      exact .send p id bytes message s hpost hs hserver hroom
    · cases h
  | sendFailed p =>
    rw [step] at h
    split at h
    · rename_i id bytes message hpost
      obtain ⟨s, hs, h⟩ := Option.bind_eq_some_iff.mp h
      obtain ⟨-, h⟩ := Option.ite_none_right_eq_some.mp h
      cases h
      exact .sendFailed p id bytes message s hpost hs
    · cases h
  | forget p =>
    rw [step] at h
    split at h
    · rename_i id hpost
      cases h
      exact .forget p id hpost
    · cases h
  | abandon p =>
    rw [step] at h
    split at h
    · rename_i session hpost
      cases h
      exact .abandon p session .body hpost nofun
    · rename_i session bytes message hpost
      cases h
      exact .abandon p session (.sending bytes message) hpost nofun
    · cases h
  | cancelService =>
    cases h
    exact .cancelService

end IdaHeadless.LegacySse
