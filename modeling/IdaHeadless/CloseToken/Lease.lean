import IdaHeadless.CloseToken.Step
import IdaHeadless.MainLoop.Lifetimes

/-!
# When the lease follows the database

A close is authorized for the database that is open then, and a token is issued for the
database its open has returned. Both refer to the lifetime that was begun last as long as
a new one begins only when nothing of an earlier one is left: then a close reaches the
database it was authorized for, and the lease it clears is that database's lease.
-/

namespace IdaHeadless.CloseToken
open MainLoop RequestChannel

/-! ### What the loop answers -/

section Turn
variable {pathsMatch : String → String → Bool} {s : Loop} {r : IdaRequest} {ans : Answers}

/- Only an initialized library without a fault has a database open. -/
def Usable (s : Loop) : Prop := s.idb.isSome → s.libInitialized = true ∧ s.installFault = none

theorem leave_idb (hs : s.idb = none) : (leave s).idb = none := by
  unfold leave
  split
  · rfl
  · exact hs

theorem serve_usable (hlib : s.libInitialized = true) (hs : Usable s) :
    Usable (serve pathsMatch s r ans).state := by
  unfold serve
  split
  · rename_i hfault
    intro _
    have hsame : SameLibrary s (dispatch pathsMatch s r ans).state := dispatch_library
    exact ⟨hsame.initialized.trans hlib, hsame.fault.trans hfault⟩
  · split
    · intro hsome
      rw [leave_idb rfl] at hsome
      cases hsome
    · exact hs

theorem turn_usable (hs : Usable s) : Usable (turn pathsMatch s r ans).state := by
  unfold turn
  split
  · rename_i signal hsignal
    unfold refuseRetired
    split
    · intro hsome
      simp [leave, hsignal, releaseMcpLock] at hsome
    · exact hs
    · exact hs
  · split
    · rename_i hlib
      exact serve_usable hlib hs
    · rename_i hlib
      have hclosed : s.idb = none := by
        rw [← Option.not_isSome_iff_eq_none]
        exact fun hsome => hlib (hs hsome).1
      unfold initThenServe
      split
      · exact hs
      · split
        · exact hs
        · apply serve_usable rfl
          intro hsome
          rw [show s.idb = none from hclosed] at hsome
          cases hsome

/- The answers that say that a database is open, or was closed. -/
def saysOpened : Reply → Bool
  | .opened _ _ => true
  | _ => false

def saysClosed : Reply → Bool
  | .closed | .closedIf .closed => true
  | _ => false

/- An open that succeeds leaves a database open, and a close leaves none. -/
structure Answered (s : Loop) (t : Turn) : Prop where
  opened : ∀ reply ∈ t.reply, saysOpened reply = true → t.state.idb.isSome ∧ t.state.phase = s.phase
  closed : ∀ reply ∈ t.reply, saysClosed reply = true → t.state.idb = none

theorem answered_of_silent {t : Turn}
    (h : t.reply.all (fun reply => !saysOpened reply && !saysClosed reply) = true) :
    Answered s t := by
  have hsilent : ∀ reply ∈ t.reply, saysOpened reply = false ∧ saysClosed reply = false := by
    intro reply hreply
    rw [Option.mem_def.mp hreply] at h
    simpa using h
  constructor
  · intro reply hreply hopens
    rw [(hsilent reply hreply).1] at hopens
    cases hopens
  · intro reply hreply hcloses
    rw [(hsilent reply hreply).2] at hcloses
    cases hcloses

theorem answered_of_closed {t : Turn} (hstate : t.state.idb = none)
    (h : t.reply.all (fun reply => !saysOpened reply) = true) : Answered s t := by
  refine ⟨?_, fun _ _ _ => hstate⟩
  intro reply hreply hopens
  rw [Option.mem_def.mp hreply] at h
  simp [hopens] at h

theorem answered_of_opened {t : Turn} (hstate : t.state.idb.isSome)
    (hphase : t.state.phase = s.phase)
    (h : t.reply.all (fun reply => !saysClosed reply) = true) : Answered s t := by
  refine ⟨fun _ _ _ => ⟨hstate, hphase⟩, ?_⟩
  intro reply hreply hcloses
  rw [Option.mem_def.mp hreply] at h
  simp [hcloses] at h

theorem runHandler_answered (operation : Option String) (h : HandlerResult) :
    Answered s (runHandler s operation h) := by
  cases operation with
  | some operation =>
    simp only [runHandler, crashGuarded]
    split
    · exact answered_of_silent rfl
    · cases h with
      | ok => exact answered_of_silent rfl
      | err e => exact answered_of_silent rfl
      | noResult => exact answered_of_silent rfl
      | crash signal => exact answered_of_silent rfl
  | none =>
    cases h with
    | ok => exact answered_of_silent rfl
    | err e => exact answered_of_silent rfl
    | noResult => exact answered_of_silent rfl
    | crash signal => exact answered_of_silent rfl

theorem newGeneration_answered {path : String} {calls : List IdaCall} (hs : s.idb.isSome) :
    Answered s (newGeneration s path calls) := by
  unfold newGeneration
  split
  · exact answered_of_opened hs rfl rfl
  · exact answered_of_silent rfl

theorem handleOpen_ok {s' : Loop} {path dbPath : String} {cancelled : Bool} {result : OpenResult}
    {calls : List IdaCall}
    (h : handleOpen pathsMatch s path cancelled result = (s', .ok dbPath, calls)) :
    s'.idb.isSome ∧ s'.phase = s.phase := by
  unfold handleOpen at h
  split at h
  · cases h
  · split at h
    · rename_i db hdb
      split at h
      · cases h
        rw [hdb]
        exact ⟨rfl, rfl⟩
      · cases h
    · split at h
      · cases h
      · cases h
        exact ⟨rfl, rfl⟩

theorem openArm_answered (path : String) (cancel : Bool) :
    Answered s (openArm pathsMatch s path cancel ans) := by
  unfold openArm
  dsimp only
  split
  · exact answered_of_silent rfl
  · split
    · exact answered_of_silent rfl
    · rename_i s' dbPath calls heq
      obtain ⟨hsome, hphase⟩ := handleOpen_ok heq
      have hnew : Answered s (newGeneration s' dbPath calls) := by
        have hanswered : Answered s' (newGeneration s' dbPath calls) :=
          newGeneration_answered hsome
        exact ⟨by rw [← hphase]; exact hanswered.opened, hanswered.closed⟩
      split
      · split
        · exact answered_of_opened hsome hphase rfl
        · exact hnew
      · exact hnew

theorem dispatch_answered : Answered s (dispatch pathsMatch s r ans) := by
  cases r with
  | openDb path cancel => exact openArm_answered path cancel
  | close save => exact answered_of_closed rfl rfl
  | closeIfGeneration g =>
    simp only [dispatch]
    split
    · exact answered_of_closed rfl rfl
    · exact answered_of_silent rfl
  | analysisStatus expected | dscLoadImage image expected =>
    simp only [dispatch, boundArm]
    split
    · exact answered_of_silent rfl
    · exact runHandler_answered _ _
  | analyzeFuncs cancel | runScript cancel =>
    simp only [dispatch, tokenArm]
    split
    · exact answered_of_silent rfl
    · exact runHandler_answered _ _
  | tool t => exact runHandler_answered _ _
  | shutdown => exact answered_of_silent rfl

/- A refusal says that a close is done only where nothing is open. -/
theorem reject_answered {e : ToolError} {calls : List IdaCall} (hs : s.idb = none) :
    Answered s ⟨s, reject r e, calls⟩ := by
  apply answered_of_closed hs
  cases r <;> rfl

theorem serve_answered (hs : Usable s) : Answered s (serve pathsMatch s r ans) := by
  unfold serve
  split
  · exact dispatch_answered
  · rename_i fault hfault
    have hclosed : s.idb = none := by
      rw [← Option.not_isSome_iff_eq_none]
      intro hsome
      rw [(hs hsome).2] at hfault
      cases hfault
    split
    · exact answered_of_silent rfl
    · exact reject_answered hclosed

theorem turn_answered (hs : Usable s) : Answered s (turn pathsMatch s r ans) := by
  unfold turn
  split
  · unfold refuseRetired
    split
    · exact answered_of_silent rfl
    · exact answered_of_silent rfl
    · rename_i hshutdown hclose
      cases r with
      | shutdown => exact absurd rfl hshutdown
      | close save => exact absurd rfl (hclose save)
      | _ => exact answered_of_silent rfl
  · split
    · exact serve_answered hs
    · rename_i hlib
      have hclosed : s.idb = none := by
        rw [← Option.not_isSome_iff_eq_none]
        exact fun hsome => hlib (hs hsome).1
      unfold initThenServe
      split
      · exact reject_answered hclosed
      · split
        · exact reject_answered hclosed
        · rename_i fault _
          have husable : Usable { s with libInitialized := true, installFault := fault } := by
            intro hsome
            rw [show s.idb = none from hclosed] at hsome
            cases hsome
          have hserve : Answered { s with libInitialized := true, installFault := fault }
              (serve pathsMatch { s with libInitialized := true, installFault := fault } r ans) :=
            serve_answered husable
          exact ⟨hserve.opened, hserve.closed⟩

end Turn

/-! ### The condition -/

variable {pathsMatch : String → String → Bool} {capacity : ℕ} {w w' : World} {m m' : Mem}
  {pc : Pc} {mv : Move} {o : Outcome} {act : Act} {ans : Answers} {r : IdaRequest}

/- The answer a call waits for. -/
def Mem.reply (m : Mem) (k : ℕ) : Option Reply :=
  (m.requests.answer k).bind fun service => service.turn.reply

/- Nothing of the present lifetime is left in the call: it has neither a token to issue nor a
close to send or a lease to clear. -/
def Pc.settled (m : Mem) : Pc → Prop
  | .awaitOpen _ k => ∀ reply ∈ m.reply k, saysOpened reply = false
  | .awaitClose k | .awaitCloseIf k => ∀ reply ∈ m.reply k, saysClosed reply = false
  | .opened .. | .sendClose _ | .clear _ => False
  | .sendCloseIf _ | .done => True

/- The loop opens a database where none was open. -/
def begins (pathsMatch : String → String → Bool) (m : Mem) (ans : Answers) : Bool :=
  match m.requests.queue with
  | [] => false
  | msg :: _ =>
    m.current.isNone && (loopCurrent (turn pathsMatch m.loop msg.request ans).state).isSome

/- A lifetime begins only when nothing of an earlier one is left: no lease, no `Close` of a
`close_idb` in the channel, and no call that is not settled. And a token of an earlier
lifetime is not presented while a database is open without a lease. -/
def Quiet (pathsMatch : String → String → Bool) (w : World) : Act → Prop
  | .serve ans =>
    begins pathsMatch w.mem ans = true →
      w.mem.lease = none ∧ (∀ msg ∈ w.mem.requests.queue, msg.sender = none) ∧
        ∀ t < w.next, ∀ pc ∈ w.tasks t, pc.settled w.mem
  | .closeIdb _ token _ _ =>
    ∀ tok ∈ token, ∀ p ∈ w.mem.issued, p.1 = tok → ∀ db ∈ w.mem.current,
      p.2 ≠ some db.lifetime → w.mem.lease.isSome
  | _ => True

/-! ### The invariant -/

/- What a call may count on: what it has learnt is about the lifetime that was begun last. -/
def Good (m : Mem) : Pc → Prop
  | .awaitOpen _ k =>
    ∀ service ∈ m.requests.answer k, ∀ reply ∈ service.turn.reply, saysOpened reply = true →
      service.turn.state.idb.map Idb.lifetime = m.latest
  | .opened _ lifetime => lifetime = m.latest
  | .sendClose call => ∀ db ∈ m.current, call.openAt = some db.lifetime
  | .awaitClose k | .awaitCloseIf k =>
    ∀ service ∈ m.requests.answer k, ∀ reply ∈ service.turn.reply, saysClosed reply = true →
      m.current = none ∧ ∀ db ∈ service.before, some db.lifetime = m.latest
  | .clear closed => m.current = none ∧ ∀ n ∈ closed, some n = m.latest
  | .sendCloseIf _ | .done => True

/- The same for the memory. -/
structure MemInv (m : Mem) : Prop where
  loop : m.loop.phase = .running → MainLoop.Inv m.loop
  usable : Usable m.loop
  ticketed : m.requests.Ticketed
  latest : ∀ db ∈ m.current, m.latest = some db.lifetime
  lease : ∀ l ∈ m.lease, l.lifetime = m.latest
  tokens : ∀ p ∈ m.issued, ∀ l ∈ m.lease, p.1 = l.token → p.2 = m.latest
  queue : ∀ msg ∈ m.requests.queue, ∀ call ∈ msg.sender, ∀ db ∈ m.current,
    call.openAt = some db.lifetime

structure Inv (w : World) : Prop where
  mem : MemInv w.mem
  fresh : w.Fresh
  calls : w.All (fun (_ : Unit) m _ pc => Good m pc) ()

/- A service that the calls can take over. -/
structure NewAnswer (m : Mem) (service : Service) : Prop where
  opened : ∀ reply ∈ service.turn.reply, saysOpened reply = true →
    service.turn.state.idb.map Idb.lifetime = m.latest
  closed : ∀ reply ∈ service.turn.reply, saysClosed reply = true →
    m.current = none ∧ ∀ db ∈ service.before, some db.lifetime = m.latest

/- A change of the memory within a lifetime. -/
structure Rely (m m' : Mem) : Prop where
  latest : m'.latest = m.latest
  current : ∀ db ∈ m'.current, db ∈ m.current
  answers : ∀ k service, m'.requests.answer k = some service →
    m.requests.answer k = some service ∨ NewAnswer m' service

theorem current_none (h : ∀ db ∈ m'.current, db ∈ m.current) (hm : m.current = none) :
    m'.current = none := by
  rw [Option.eq_none_iff_forall_not_mem]
  intro db hdb
  have hold := h db hdb
  rw [hm] at hold
  cases hold

theorem good_stable (hgood : Good m pc) (hr : Rely m m') : Good m' pc := by
  have hcloses : ∀ k, (∀ service ∈ m.requests.answer k, ∀ reply ∈ service.turn.reply,
      saysClosed reply = true →
        m.current = none ∧ ∀ db ∈ service.before, some db.lifetime = m.latest) →
      ∀ service ∈ m'.requests.answer k, ∀ reply ∈ service.turn.reply,
        saysClosed reply = true →
          m'.current = none ∧ ∀ db ∈ service.before, some db.lifetime = m'.latest := by
    intro k hold service hservice reply hreply hcloses
    rcases hr.answers k service hservice with hanswer | hnew
    · obtain ⟨hcurrent, hbefore⟩ := hold service hanswer reply hreply hcloses
      rw [hr.latest]
      exact ⟨current_none hr.current hcurrent, hbefore⟩
    · exact hnew.closed reply hreply hcloses
  cases pc with
  | awaitOpen sessionId k =>
    intro service hservice reply hreply hopens
    rcases hr.answers k service hservice with hanswer | hnew
    · rw [hr.latest]
      exact hgood service hanswer reply hreply hopens
    · exact hnew.opened reply hreply hopens
  | opened sessionId lifetime =>
    show lifetime = m'.latest
    rw [hr.latest]
    exact hgood
  | sendClose call => exact fun db hdb => hgood db (hr.current db hdb)
  | awaitClose k => exact hcloses k hgood
  | awaitCloseIf k => exact hcloses k hgood
  | clear closed =>
    refine ⟨current_none hr.current hgood.1, ?_⟩
    rw [hr.latest]
    exact hgood.2
  | sendCloseIf generation => trivial
  | done => trivial

theorem calls_stable : ∀ (_ : Unit) (m : Mem) (_ : Unit) (m' : Mem) (_ : ℕ) (pc : Pc),
    Good m pc → Rely m m' → Good m' pc :=
  fun _ _ _ _ _ _ hgood hr => good_stable hgood hr

/- A settled call loses nothing when a lifetime begins. -/
theorem good_of_settled (hs : pc.settled m)
    (hanswers : ∀ k service, m'.requests.answer k = some service →
      m.requests.answer k = some service ∨ NewAnswer m' service) : Good m' pc := by
  have hreply : ∀ {k service reply}, m.requests.answer k = some service →
      reply ∈ service.turn.reply → reply ∈ m.reply k := by
    intro k service reply hanswer hreply
    rw [Mem.reply, hanswer]
    exact hreply
  cases pc with
  | awaitOpen sessionId k =>
    intro service hservice reply hmem hopens
    rcases hanswers k service hservice with hanswer | hnew
    · rw [hs reply (hreply hanswer hmem)] at hopens
      cases hopens
    · exact hnew.opened reply hmem hopens
  | awaitClose k =>
    intro service hservice reply hmem hcloses
    rcases hanswers k service hservice with hanswer | hnew
    · rw [hs reply (hreply hanswer hmem)] at hcloses
      cases hcloses
    · exact hnew.closed reply hmem hcloses
  | awaitCloseIf k =>
    intro service hservice reply hmem hcloses
    rcases hanswers k service hservice with hanswer | hnew
    · rw [hs reply (hreply hanswer hmem)] at hcloses
      cases hcloses
    · exact hnew.closed reply hmem hcloses
  | opened sessionId lifetime => exact hs.elim
  | sendClose call => exact hs.elim
  | clear closed => exact hs.elim
  | sendCloseIf generation => trivial
  | done => trivial

/-! ### The loop -/

theorem loopCurrent_of_running {s : Loop} (h : s.phase = .running) : loopCurrent s = s.idb :=
  if_pos h

theorem loopCurrent_of_ended {s : Loop} (h : s.phase ≠ .running) : loopCurrent s = none :=
  if_neg h

theorem loopCurrent_of_closed {s : Loop} (h : s.idb = none) : loopCurrent s = none := by
  unfold loopCurrent
  split
  · exact h
  · rfl

/- A loop event that begins no lifetime keeps the current one, or ends it. -/
theorem change_current {t : Turn} (hrun : m.loop.phase = .running) (hc : Change m.loop t)
    (hbegin : m.current = none → loopCurrent t.state = none) :
    ∀ db ∈ loopCurrent t.state, db ∈ m.current := by
  intro db hdb
  have hm : m.current = m.loop.idb := loopCurrent_of_running hrun
  cases hc with
  | kept hk =>
    by_cases ht : t.state.phase = .running
    · rw [loopCurrent_of_running ht, hk.idb] at hdb
      rw [hm]
      exact hdb
    · rw [loopCurrent_of_ended ht] at hdb
      cases hdb
  | created db' hc =>
    rw [hbegin (hm.trans hc.before)] at hdb
    cases hdb
  | closed hc =>
    rw [loopCurrent_of_closed hc.idb] at hdb
    cases hdb
  | ended he =>
    rw [loopCurrent_of_ended he] at hdb
    cases hdb

theorem setLoop_latest {loop : Loop} (hI : MemInv m)
    (hcurrent : ∀ db ∈ loopCurrent loop, db ∈ m.current) : (m.setLoop loop).latest = m.latest := by
  unfold Mem.setLoop
  cases hloop : loopCurrent loop with
  | none => rfl
  | some db => exact (hI.latest db (hcurrent db hloop)).symm

theorem setLoop_current_latest {loop : Loop} :
    ∀ db ∈ (m.setLoop loop).current, (m.setLoop loop).latest = some db.lifetime := by
  intro db hdb
  have hloop : loopCurrent loop = some db := hdb
  simp [Mem.setLoop, hloop]

/- An event within a lifetime keeps what is known about it. -/
theorem MemInv.setLoop {loop : Loop} (hI : MemInv m)
    (hloop : loop.phase = .running → MainLoop.Inv loop) (husable : Usable loop)
    (hcurrent : ∀ db ∈ loopCurrent loop, db ∈ m.current) : MemInv (m.setLoop loop) := by
  have hlatest := setLoop_latest hI hcurrent
  refine ⟨hloop, husable, hI.ticketed, setLoop_current_latest, ?_, ?_, ?_⟩
  · rw [hlatest]
    exact hI.lease
  · rw [hlatest]
    exact hI.tokens
  · intro msg hmsg call hcall db hdb
    exact hI.queue msg hmsg call hcall db (hcurrent db hdb)

section Serve
variable {msg : Message (Option CloseCall) IdaRequest}
  {rest : List (Message (Option CloseCall) IdaRequest)}

/- The memory after the loop has taken `msg`. -/
def served (pathsMatch : String → String → Bool) (m : Mem)
    (msg : Message (Option CloseCall) IdaRequest)
    (rest : List (Message (Option CloseCall) IdaRequest)) (ans : Answers) : Mem :=
  let turn := turn pathsMatch m.loop msg.request ans
  { m.setLoop turn.state with requests := m.requests.serve msg rest ⟨m.loop.idb, turn⟩ }

theorem serveNext_some (h : serveNext pathsMatch m ans = some m') :
    ∃ msg rest, m.requests.queue = msg :: rest ∧ m.loop.phase = .running ∧
      m' = served pathsMatch m msg rest ans := by
  unfold serveNext at h
  split at h
  · cases h
  · rename_i msg rest hqueue
    split at h
    · rename_i hrun
      exact ⟨msg, rest, hqueue, hrun, (Option.some.inj h).symm⟩
    · cases h

theorem served_newAnswer (hI : MemInv m) (hrun : m.loop.phase = .running) :
    NewAnswer (served pathsMatch m msg rest ans)
      ⟨m.loop.idb, turn pathsMatch m.loop msg.request ans⟩ := by
  have hanswered : Answered m.loop (turn pathsMatch m.loop msg.request ans) :=
    turn_answered hI.usable
  constructor
  · intro reply hreply hopens
    obtain ⟨hsome, hphase⟩ := hanswered.opened reply hreply hopens
    obtain ⟨db, hdb⟩ := Option.isSome_iff_exists.mp hsome
    have hloop : loopCurrent (turn pathsMatch m.loop msg.request ans).state = some db := by
      rw [loopCurrent_of_running (hphase.trans hrun), hdb]
    simp [served, Mem.setLoop, hloop, hdb]
  · intro reply hreply hcloses
    have hnone := loopCurrent_of_closed (hanswered.closed reply hreply hcloses)
    refine ⟨hnone, ?_⟩
    intro db hdb
    have hcurrent : m.current = some db := (loopCurrent_of_running hrun).trans hdb
    simp [served, Mem.setLoop, hnone, hI.latest db hcurrent]

theorem served_answers (hI : MemInv m) (hrun : m.loop.phase = .running) {k : ℕ} {service : Service}
    (h : (served pathsMatch m msg rest ans).requests.answer k = some service) :
    m.requests.answer k = some service ∨
      NewAnswer (served pathsMatch m msg rest ans) service := by
  rcases answer_serve h with hold | hnew
  · exact Or.inl hold
  · rw [hnew]
    exact Or.inr (served_newAnswer hI hrun)

theorem MemInv.turn_loop (hI : MemInv m) (hrun : m.loop.phase = .running)
    (h : (turn pathsMatch m.loop r ans).state.phase = .running) :
    MainLoop.Inv (turn pathsMatch m.loop r ans).state :=
  (turn_change (hI.loop hrun)).inv (hI.loop hrun) h

/- Within a lifetime. -/
theorem served_memInv (hI : MemInv m) (hrun : m.loop.phase = .running)
    (hqueue : m.requests.queue = msg :: rest)
    (hcurrent : ∀ db ∈ loopCurrent (turn pathsMatch m.loop msg.request ans).state, db ∈ m.current) :
    MemInv (served pathsMatch m msg rest ans) := by
  have hset := hI.setLoop (hI.turn_loop hrun) (turn_usable hI.usable) hcurrent
  refine ⟨hset.loop, hset.usable, ticketed_serve hI.ticketed hqueue, hset.latest, hset.lease,
    hset.tokens, ?_⟩
  intro msg' hmsg'
  apply hset.queue msg'
  show msg' ∈ m.requests.queue
  rw [hqueue]
  exact List.mem_cons_of_mem msg hmsg'

/- A lifetime begins. -/
theorem served_memInv_begins (hI : MemInv m) (hrun : m.loop.phase = .running)
    (hqueue : m.requests.queue = msg :: rest) (hlease : m.lease = none)
    (hsenders : ∀ msg' ∈ m.requests.queue, msg'.sender = none) :
    MemInv (served pathsMatch m msg rest ans) := by
  have hnone : (served pathsMatch m msg rest ans).lease = none := hlease
  refine ⟨hI.turn_loop hrun, turn_usable hI.usable, ticketed_serve hI.ticketed hqueue,
    setLoop_current_latest, ?_, ?_, ?_⟩
  · rw [hnone]
    nofun
  · rw [hnone]
    nofun
  · intro msg' hmsg' call hcall
    have hmem : msg' ∈ m.requests.queue := by
      rw [hqueue]
      exact List.mem_cons_of_mem msg hmsg'
    rw [hsenders msg' hmem] at hcall
    cases hcall

end Serve

theorem serve_inv (hI : Inv w) (hquiet : Quiet pathsMatch w (.serve ans))
    (h : serveNext pathsMatch w.mem ans = some m') : Inv { w with mem := m' } := by
  obtain ⟨msg, rest, hqueue, hrun, rfl⟩ := serveNext_some h
  have hanswers : ∀ k service,
      (served pathsMatch w.mem msg rest ans).requests.answer k = some service →
        w.mem.requests.answer k = some service ∨
          NewAnswer (served pathsMatch w.mem msg rest ans) service :=
    fun k service => served_answers hI.mem hrun
  by_cases hbegin : begins pathsMatch w.mem ans = true
  · obtain ⟨hlease, hsenders, hsettled⟩ := hquiet hbegin
    refine ⟨served_memInv_begins hI.mem hrun hqueue hlease hsenders, hI.fresh, ?_⟩
    intro t pc hpc
    have hlt : t < w.next := by
      by_contra hge
      rw [hI.fresh t (Nat.le_of_not_lt hge)] at hpc
      cases hpc
    exact good_of_settled (hsettled t hlt pc hpc) hanswers
  · have hcurrent : ∀ db ∈ loopCurrent (turn pathsMatch w.mem.loop msg.request ans).state,
        db ∈ w.mem.current := by
      apply change_current hrun (turn_change (hI.mem.loop hrun))
      intro hnone
      simpa [begins, hqueue, hnone] using hbegin
    have hrely : Rely w.mem (served pathsMatch w.mem msg rest ans) :=
      ⟨setLoop_latest hI.mem hcurrent, hcurrent, hanswers⟩
    refine ⟨served_memInv hI.mem hrun hqueue hcurrent, hI.fresh, ?_⟩
    intro t pc hpc
    exact good_stable (hI.calls t pc hpc) hrely

/- Without a request the loop can only stop. -/
theorem loopEvent_inv {a : MainLoop.Act} (hI : Inv w)
    (h : loopEvent pathsMatch w.mem a = some m') : Inv { w with mem := m' } := by
  have hstop : ∃ loop, m' = w.mem.setLoop loop ∧
      (loop = w.mem.loop ∨ loop.phase ≠ .running) ∧
      (loop.idb = none ∨ loop.idb = w.mem.loop.idb) ∧ SameLibrary w.mem.loop loop := by
    cases a with
    | request r ans => cases h
    | interrupt signal =>
      obtain ⟨loop, hloop, rfl⟩ := Option.map_eq_some_iff.mp h
      obtain ⟨-, rfl⟩ := step_event hloop
      exact ⟨_, rfl, Or.inr (fun hphase => by cases hphase), Or.inl rfl, rfl, rfl⟩
    | disconnected =>
      obtain ⟨loop, hloop, rfl⟩ := Option.map_eq_some_iff.mp h
      obtain ⟨-, rfl⟩ := step_event hloop
      refine ⟨_, rfl, Or.inr leave_ended, ?_⟩
      simp only [event, leave]
      split
      · exact ⟨Or.inl rfl, rfl, rfl⟩
      · exact ⟨Or.inr rfl, rfl, rfl⟩
    | exitNow =>
      obtain ⟨loop, hloop, rfl⟩ := Option.map_eq_some_iff.mp h
      obtain ⟨-, rfl⟩ := step_event hloop
      refine ⟨_, rfl, ?_⟩
      simp only [event]
      split
      · exact ⟨Or.inr (fun hphase => by cases hphase), Or.inr rfl, rfl, rfl⟩
      · exact ⟨Or.inl rfl, Or.inr rfl, rfl, rfl⟩
  obtain ⟨loop, rfl, hphase, hidb, hlibrary⟩ := hstop
  have husable : Usable loop := by
    intro hsome
    rcases hidb with hnone | hsame
    · rw [hnone] at hsome
      cases hsome
    · rw [hsame] at hsome
      obtain ⟨hinit, hfault⟩ := hI.mem.usable hsome
      exact ⟨hlibrary.initialized.trans hinit, hlibrary.fault.trans hfault⟩
  have hcurrent : ∀ db ∈ loopCurrent loop, db ∈ w.mem.current := by
    intro db hdb
    rcases hphase with rfl | hended
    · exact hdb
    · rw [loopCurrent_of_ended hended] at hdb
      cases hdb
  have hloop : loop.phase = .running → MainLoop.Inv loop := by
    intro hrun
    rcases hphase with rfl | hended
    · exact hI.mem.loop hrun
    · exact absurd hrun hended
  have hrely : Rely w.mem (w.mem.setLoop loop) :=
    ⟨setLoop_latest hI.mem hcurrent, hcurrent, fun _ _ => Or.inl⟩
  refine ⟨hI.mem.setLoop hloop husable hcurrent, hI.fresh, ?_⟩
  intro t pc hpc
  exact good_stable (hI.calls t pc hpc) hrely

/-! ### The calls -/

/- A step of a call outside the loop: it sends a request, changes the lease, or nothing. -/
theorem rely_of_requests (hloop : m'.loop = m.loop) (hlatest : m'.latest = m.latest)
    (hserved : m'.requests.served = m.requests.served) : Rely m m' := by
  refine ⟨hlatest, ?_, ?_⟩
  · intro db hdb
    rwa [Mem.current, hloop] at hdb
  · intro k service hanswer
    rw [Channel.answer, hserved] at hanswer
    exact Or.inl hanswer

theorem trySend_ok {sender : Option CloseCall} (h : trySend capacity m sender r = .ok m') :
    m' = { m with requests := m.requests.push sender r } := by
  unfold trySend at h
  split at h
  · cases h
  · split at h
    · cases h
    · cases h
      rfl

theorem MemInv.push (hI : MemInv m) {sender : Option CloseCall}
    (hsender : ∀ call ∈ sender, ∀ db ∈ m.current, call.openAt = some db.lifetime) :
    MemInv { m with requests := m.requests.push sender r } := by
  refine ⟨hI.loop, hI.usable, ticketed_push hI.ticketed, hI.latest, hI.lease, hI.tokens, ?_⟩
  intro msg hmsg call hcall db hdb
  rcases List.mem_append.mp hmsg with hold | hnew
  · exact hI.queue msg hold call hcall db hdb
  · rw [List.mem_singleton.mp hnew] at hcall
    exact hsender call hcall db hdb

/- A request that is no `Close` of a `close_idb`. -/
theorem MemInv.push_none (hI : MemInv m) : MemInv { m with requests := m.requests.push none r } :=
  hI.push fun _ hcall => absurd hcall (Option.not_mem_none _)

/- The ticket of a request that was just sent has no answer. -/
theorem push_answer (hI : MemInv m) (sender : Option CloseCall) :
    Channel.answer (m.requests.push sender r) m.requests.next = none :=
  answer_next hI.ticketed

theorem sendWithRetry_inv {sender : Option CloseCall} {wait : Pc} {sent : ℕ → Pc} (hI : MemInv m)
    (hsender : ∀ call ∈ sender, ∀ db ∈ m.current, call.openAt = some db.lifetime)
    (hwait : Good m wait)
    (hsent : ∀ m k, m.requests.answer k = none → Good m (sent k)) :
    MemInv (sendWithRetry capacity m sender r o wait sent).mem ∧
      Rely m (sendWithRetry capacity m sender r o wait sent).mem ∧
      Good (sendWithRetry capacity m sender r o wait sent).mem
        (sendWithRetry capacity m sender r o wait sent).point ∧
      (sendWithRetry capacity m sender r o wait sent).spawned = [] := by
  have hsame : Rely m m := rely_of_requests rfl rfl rfl
  unfold sendWithRetry
  split
  · rename_i m' heq
    rw [trySend_ok heq]
    exact ⟨hI.push hsender, rely_of_requests rfl rfl rfl, hsent _ _ (push_answer hI sender), rfl⟩
  · exact ⟨hI, hsame, trivial, rfl⟩
  · exact ⟨hI, hsame, hwait, rfl⟩
  · exact ⟨hI, hsame, trivial, rfl⟩

/- The issue of a token for the latest lifetime. -/
theorem issue_memInv {sessionId token : String} (hI : MemInv m)
    (hfresh : token ∉ m.issued.map Prod.fst) : MemInv (issue m sessionId token m.latest) := by
  unfold issue issueForSession
  cases hlease : m.lease with
  | none =>
    refine ⟨hI.loop, hI.usable, hI.ticketed, hI.latest, ?_, ?_, hI.queue⟩
    · intro l hl
      cases hl
      rfl
    · intro p hp l hl heq
      cases hl
      rcases List.mem_cons.mp hp with rfl | hold
      · rfl
      · exact absurd (List.mem_map.mpr ⟨p, hold, heq⟩) hfresh
  | some l =>
    by_cases howner : l.ownerSessionId = sessionId
    · simp only [if_pos howner]
      refine ⟨hI.loop, hI.usable, hI.ticketed, hI.latest, ?_, ?_, hI.queue⟩
      · rw [← hlease]
        exact hI.lease
      · intro p hp l' hl' heq
        rcases List.mem_cons.mp hp with rfl | hold
        · rfl
        · rw [← hlease] at hl'
          exact hI.tokens p hold l' hl' heq
    · simp only [if_neg howner]
      exact hI

theorem issue_rely (m : Mem) (sessionId token : String) (lifetime : Option ℕ) :
    Rely m (issue m sessionId token lifetime) := by
  unfold issue
  split
  · exact rely_of_requests rfl rfl rfl
  · exact rely_of_requests rfl rfl rfl

theorem received_ok {k : ℕ} {service : Service} {reply : Reply}
    (h : received m k = some (.ok (service, reply))) :
    m.requests.answer k = some service ∧ service.turn.reply = some reply := by
  unfold received at h
  split at h
  · rename_i service' hanswer
    split at h
    · cases h
    · cases h
    · cases h
    · rename_i reply' _ _ hreply
      cases h
      exact ⟨hanswer, hreply⟩
  · split at h
    · cases h
    · cases h

/- What a step of a call leaves behind. -/
structure Advanced (m : Mem) (mv : Move) : Prop where
  mem : MemInv mv.mem
  rely : Rely m mv.mem
  point : Good mv.mem mv.point
  spawned : mv.spawned = []

theorem advanced_of_pc (hI : MemInv m) (hpc : Good m pc) : Advanced m ⟨m, pc, []⟩ :=
  ⟨hI, rely_of_requests rfl rfl rfl, hpc, rfl⟩

/- An answered close was served on the last lifetime, and nothing is open any more. -/
theorem clear_good {k : ℕ} {service : Service} {reply : Reply} (hgood : Good m (.awaitClose k))
    (h : received m k = some (.ok (service, reply))) (hclosed : saysClosed reply = true) :
    Good m (.clear (service.before.map Idb.lifetime)) := by
  obtain ⟨hanswer, hreply⟩ := received_ok h
  obtain ⟨hcurrent, hbefore⟩ := hgood service hanswer _ hreply hclosed
  refine ⟨hcurrent, ?_⟩
  intro n hn
  obtain ⟨db, hdb, rfl⟩ := Option.map_eq_some_iff.mp hn
  exact hbefore db hdb

theorem afterClose_advanced {k : ℕ} {result : Except ToolError (Service × Reply)} (hI : MemInv m)
    (hgood : Good m (.awaitClose k)) (h : received m k = some result) :
    Advanced m (afterClose m result) := by
  unfold afterClose
  split
  · exact advanced_of_pc hI (clear_good hgood h rfl)
  · exact advanced_of_pc hI (clear_good hgood h rfl)
  · exact advanced_of_pc hI trivial

theorem resumeCall_advanced (hI : MemInv m) (hgood : Good m pc)
    (h : resumeCall capacity m o pc = some mv) : Advanced m mv := by
  cases pc with
  | awaitOpen sessionId k =>
    obtain ⟨result, hresult, rfl⟩ := Option.map_eq_some_iff.mp h
    unfold afterOpen
    split
    · rename_i service path g
      obtain ⟨hanswer, hreply⟩ := received_ok hresult
      exact advanced_of_pc hI (hgood service hanswer _ hreply rfl)
    · exact advanced_of_pc hI trivial
  | opened sessionId lifetime =>
    simp only [resumeCall] at h
    split at h
    · split at h
      · cases h
      · rename_i token hfresh
        cases h
        have hlatest : lifetime = m.latest := hgood
        subst hlatest
        exact ⟨issue_memInv hI hfresh, issue_rely m sessionId token _, trivial, rfl⟩
    · cases h
  | sendClose call =>
    cases h
    have hsender : ∀ c ∈ some call, ∀ db ∈ m.current, c.openAt = some db.lifetime := by
      intro c hc
      cases hc
      exact hgood
    obtain ⟨hmem, hrely, hpoint, hspawned⟩ := sendWithRetry_inv hI hsender hgood
      (fun m k hk => show Good m (.awaitClose k) by simp [Good, hk])
    exact ⟨hmem, hrely, hpoint, hspawned⟩
  | sendCloseIf generation =>
    cases h
    obtain ⟨hmem, hrely, hpoint, hspawned⟩ := sendWithRetry_inv hI
      (fun _ hcall => absurd hcall (Option.not_mem_none _)) hgood
      (fun m k hk => show Good m (.awaitCloseIf k) by simp [Good, hk])
    exact ⟨hmem, hrely, hpoint, hspawned⟩
  | awaitClose k =>
    obtain ⟨result, hresult, rfl⟩ := Option.map_eq_some_iff.mp h
    exact afterClose_advanced hI hgood hresult
  | awaitCloseIf k =>
    obtain ⟨result, hresult, rfl⟩ := Option.map_eq_some_iff.mp h
    exact afterClose_advanced hI hgood hresult
  | clear closed =>
    cases h
    refine ⟨⟨hI.loop, hI.usable, hI.ticketed, hI.latest, nofun, ?_, hI.queue⟩,
      rely_of_requests rfl rfl rfl, trivial, rfl⟩
    intro p hp l hl
    cases hl
  | done => cases h

theorem advance_advanced (hI : MemInv m) (hgood : Good m pc)
    (h : advance capacity m o pc = some mv) : Advanced m mv := by
  unfold advance at h
  split at h
  · cases h
    exact advanced_of_pc hI trivial
  · exact resumeCall_advanced hI hgood h

/-! ### Runs -/

/- New calls over a changed memory. -/
theorem spawn_inv {pcs : List Pc} (hI : Inv w) (hmem : MemInv m') (hrely : Rely w.mem m')
    (hnew : ∀ pc ∈ pcs, Good m' pc) : Inv (Tasks.World.spawn { w with mem := m' } pcs) := by
  refine ⟨hmem, Tasks.spawn_fresh _ _, ?_⟩
  refine Tasks.spawn_all calls_stable hI.calls (fun _ => hrely) ?_
  intro i pc hi
  exact hnew pc (List.mem_of_getElem? hi)

theorem step_inv (hI : Inv w) (hquiet : Quiet pathsMatch w act)
    (h : step pathsMatch capacity w act = some w') : Inv w' := by
  cases act with
  | openIdb sessionId path =>
    cases h
    unfold startOpen
    split
    · rename_i m' heq
      rw [trySend_ok heq]
      apply spawn_inv hI hI.mem.push_none (rely_of_requests rfl rfl rfl)
      intro pc hpc
      rw [List.mem_singleton.mp hpc]
      intro service hservice
      rw [push_answer hI.mem none] at hservice
      cases hservice
    · exact spawn_inv hI hI.mem (rely_of_requests rfl rfl rfl) nofun
  | closeIdb sessionId token force save =>
    cases h
    apply spawn_inv hI hI.mem (rely_of_requests rfl rfl rfl)
    have hcall : Good w.mem (.sendClose ⟨sessionId, force, save, w.mem.lifetime⟩) := by
      intro db hdb
      exact congrArg (Option.map Idb.lifetime) hdb
    intro pc hpc
    unfold startClose at hpc
    split at hpc
    · cases hpc
    · rw [List.mem_singleton.mp hpc]
      exact hcall
    · rw [List.mem_singleton.mp hpc]
      exact hcall
  | closeIf generation =>
    cases h
    apply spawn_inv hI hI.mem (rely_of_requests rfl rfl rfl)
    intro pc hpc
    rw [List.mem_singleton.mp hpc]
    trivial
  | request r =>
    simp only [step] at h
    split at h
    · rename_i m' heq
      cases h
      rw [trySend_ok heq]
      refine ⟨hI.mem.push_none, hI.fresh, ?_⟩
      intro t pc hpc
      exact good_stable (hI.calls t pc hpc) (rely_of_requests rfl rfl rfl)
    · cases h
      exact hI
  | advance t o =>
    obtain ⟨mv, hmv, rfl⟩ := Option.map_eq_some_iff.mp h
    obtain ⟨pc, hpc, hadvance⟩ := Option.bind_eq_some_iff.mp hmv
    have hadv := advance_advanced hI.mem (hI.calls t pc hpc) hadvance
    refine ⟨hadv.mem, Tasks.resume_fresh _ _ _, ?_⟩
    refine Tasks.resume_all calls_stable hI.calls (fun _ _ => hadv.rely)
      hadv.point ?_
    intro i pc hi
    rw [hadv.spawned] at hi
    cases hi
  | serve ans =>
    obtain ⟨m', hm', rfl⟩ := Option.map_eq_some_iff.mp h
    exact serve_inv hI hquiet hm'
  | loopEvent a =>
    obtain ⟨m', hm', rfl⟩ := Option.map_eq_some_iff.mp h
    exact loopEvent_inv hI hm'

theorem init_inv (lib : Bool) (fault : Option String) : Inv (init lib fault) := by
  have hnone : (init lib fault).mem.current = none := loopCurrent_of_closed rfl
  refine ⟨⟨fun _ => MainLoop.start_inv lib fault, nofun, ticketed_empty, ?_, nofun, nofun, ?_⟩,
    fun _ _ => rfl, nofun⟩
  · intro db hdb
    rw [hnone] at hdb
    cases hdb
  · intro msg hmsg
    exact absurd hmsg List.not_mem_nil

/- What is claimed of a step. A `Close` that a `close_idb` sent is served on the database that
was open when the call was authorized; a lease that is cleared belongs to the lifetime
the call has closed, and nothing is open; a token that is accepted, not only its
presenter, was issued for the database that is open. -/
def Respects (w : World) : Act → Prop
  | .serve _ =>
    ∀ msg rest, w.mem.requests.queue = msg :: rest → ∀ call ∈ msg.sender, ∀ db ∈ w.mem.current,
      call.openAt = some db.lifetime
  | .advance t _ =>
    ∀ closed, w.tasks t = some (.clear closed) → ∀ l ∈ w.mem.lease,
      w.mem.current = none ∧ ∀ n ∈ closed, l.lifetime = some n
  | .closeIdb sessionId token _ _ =>
    ∀ tok ∈ token, ∀ p ∈ w.mem.issued, p.1 = tok → ∀ db ∈ w.mem.current,
      authorizeClose w.mem.lease sessionId token false = .granted →
        (∀ l ∈ w.mem.lease, l.ownerSessionId ≠ sessionId) → p.2 = some db.lifetime
  | _ => True

theorem Inv.token_current (hI : Inv w) {sessionId tok : String} {p : String × Option ℕ} {db : Idb}
    (hp : p ∈ w.mem.issued) (htok : p.1 = tok) (hdb : db ∈ w.mem.current)
    (hlease : p.2 ≠ some db.lifetime → w.mem.lease.isSome)
    (hgranted : authorizeClose w.mem.lease sessionId (some tok) false = .granted)
    (howner : ∀ l ∈ w.mem.lease, l.ownerSessionId ≠ sessionId) : p.2 = some db.lifetime := by
  by_contra hne
  obtain ⟨l, hl⟩ := Option.isSome_iff_exists.mp (hlease hne)
  have htoken : tok = l.token := by
    rw [hl, authorizeClose] at hgranted
    split at hgranted
    · rename_i hcase
      rcases hcase with heq | hsession
      · exact Option.some.inj heq
      · exact absurd hsession (howner l hl)
    · cases hgranted
  have hissued := hI.mem.tokens p hp l hl (htok.trans htoken)
  rw [hI.mem.latest db hdb] at hissued
  exact hne hissued

/-- In every quiet run the lease follows the database. -/
theorem lease_follows_database {lib : Bool} {fault : Option String} {as : List Act}
    (hrun : Runs.run (step pathsMatch capacity) (init lib fault) as = some w)
    (hcond : Runs.Along (step pathsMatch capacity) (Quiet pathsMatch) (init lib fault) as)
    (hquiet : Quiet pathsMatch w act) : Respects w act := by
  have hI : Inv w :=
    Runs.run_inv_along Inv (fun _ _ _ hI hquiet h => step_inv hI hquiet h) (init_inv lib fault)
      hcond hrun
  cases act with
  | serve ans =>
    intro msg rest hqueue call hcall db hdb
    apply hI.mem.queue msg _ call hcall db hdb
    rw [hqueue]
    exact List.mem_cons_self
  | advance t o =>
    intro closed hpc l hl
    obtain ⟨hcurrent, hclosed⟩ := hI.calls t _ hpc
    refine ⟨hcurrent, ?_⟩
    intro n hn
    rw [hI.mem.lease l hl]
    exact (hclosed n hn).symm
  | closeIdb sessionId token force save =>
    intro tok htok p hp heq db hdb hgranted howner
    rw [htok] at hgranted
    exact hI.token_current hp heq hdb (hquiet tok htok p hp heq db hdb) hgranted howner
  | openIdb sessionId path => trivial
  | closeIf generation => trivial
  | request r => trivial
  | loopEvent a => trivial

instance (m : Mem) : ∀ pc : Pc, Decidable (pc.settled m)
  | .awaitOpen _ k => inferInstanceAs (Decidable (∀ reply ∈ m.reply k, saysOpened reply = false))
  | .awaitClose k | .awaitCloseIf k =>
    inferInstanceAs (Decidable (∀ reply ∈ m.reply k, saysClosed reply = false))
  | .opened .. | .sendClose _ | .clear _ => isFalse id
  | .sendCloseIf _ | .done => isTrue trivial

instance (pathsMatch : String → String → Bool) (w : World) :
    ∀ act, Decidable (Quiet pathsMatch w act)
  | .serve ans =>
    inferInstanceAs (Decidable (begins pathsMatch w.mem ans = true →
      w.mem.lease = none ∧ (∀ msg ∈ w.mem.requests.queue, msg.sender = none) ∧
        ∀ t < w.next, ∀ pc ∈ w.tasks t, pc.settled w.mem))
  | .closeIdb _ token _ _ =>
    inferInstanceAs (Decidable (∀ tok ∈ token, ∀ p ∈ w.mem.issued, p.1 = tok →
      ∀ db ∈ w.mem.current, p.2 ≠ some db.lifetime → w.mem.lease.isSome))
  | .openIdb .. | .closeIf _ | .request _ | .advance .. | .loopEvent _ => isTrue trivial

/- The loop opens `path` when it is asked to. -/
def servedAs (path : String) : Act := .serve ⟨none, .ok none, .opened path path, .ok⟩

/- Client `A` opens a database and is given a token. -/
def opening : List Act :=
  [.openIdb "A" "a", servedAs "a", .advance 0 .go, .advance 0 (.token "t1")]

/- The `Close` the loop takes next was authorized on the database that is open. -/
theorem lease_follows_database_token :
    ∃ w, Runs.run (step (· == ·) 8) (init true none)
        (opening ++ [.closeIdb "B" (some "t1") false true, .advance 1 .go]) = some w ∧
      w.mem.current.isSome ∧ w.mem.requests.queue ≠ [] ∧ Respects w (servedAs "a") := by
  have hrun : (Runs.run (step (· == ·) 8) (init true none)
      (opening ++ [.closeIdb "B" (some "t1") false true, .advance 1 .go])).any (fun w =>
        w.mem.current.isSome && !w.mem.requests.queue.isEmpty &&
          decide (Quiet (· == ·) w (servedAs "a"))) = true := by
    decide +kernel
  have hcond : Runs.Along (step (· == ·) 8) (Quiet (· == ·)) (init true none)
      (opening ++ [.closeIdb "B" (some "t1") false true, .advance 1 .go]) := by
    decide +kernel
  obtain ⟨w, hw, hfacts⟩ := (Option.any_eq_true _ _).mp hrun
  simp only [Bool.and_eq_true, decide_eq_true_eq] at hfacts
  obtain ⟨⟨hcurrent, hqueue⟩, hquiet⟩ := hfacts
  exact ⟨w, hw, hcurrent, by simpa using hqueue, lease_follows_database hw hcond hquiet⟩

/- `B` is authorized on the database of `A`, `A` closes it, `C` opens another one, and then
the `Close` of `B` is sent. -/
def crossing : List Act :=
  opening ++ [.closeIdb "B" (some "t1") false true, .closeIdb "A" none false true, .advance 2 .go,
    servedAs "a", .advance 2 .go, .advance 2 .go, .openIdb "C" "c", servedAs "c", .advance 1 .go]

theorem close_reaches_next_lifetime :
    ∃ w msg call db, Runs.run (step (· == ·) 8) (init true none) crossing = some w ∧
      w.mem.requests.queue = [msg] ∧ msg.sender = some call ∧ msg.request = .close true ∧
      call.force = false ∧ call.openAt = some 0 ∧ w.mem.current = some db ∧ db.lifetime = 1 := by
  have hrun : (Runs.run (step (· == ·) 8) (init true none) crossing).any (fun w =>
      w.mem.current.any (fun db => db.lifetime = 1) &&
        (w.mem.requests.queue.head?.any fun msg =>
          w.mem.requests.queue.length = 1 && msg.request = .close true &&
            msg.sender.any fun call => !call.force && call.openAt = some 0)) = true := by
    decide +kernel
  obtain ⟨w, hw, hfacts⟩ := (Option.any_eq_true _ _).mp hrun
  obtain ⟨hcurrent, hqueue⟩ := Bool.and_eq_true_iff.mp hfacts
  obtain ⟨db, hdb, hlifetime⟩ := (Option.any_eq_true _ _).mp hcurrent
  obtain ⟨msg, hmsg, hsend⟩ := (Option.any_eq_true _ _).mp hqueue
  simp only [Bool.and_eq_true, decide_eq_true_eq] at hsend
  obtain ⟨⟨hlength, hclose⟩, hsender⟩ := hsend
  obtain ⟨call, hcall, hopen⟩ := (Option.any_eq_true _ _).mp hsender
  simp only [Bool.and_eq_true, decide_eq_true_eq, Bool.not_eq_true'] at hopen
  obtain ⟨rest, hrest⟩ := List.head?_eq_some_iff.mp hmsg
  have hnil : rest = [] := by
    rw [hrest, List.length_cons] at hlength
    exact List.length_eq_zero_iff.mp (by omega)
  rw [hnil] at hrest
  exact ⟨w, msg, call, db, hw, hrest, hcall, hclose, hopen.1, hopen.2, hdb,
    of_decide_eq_true hlifetime⟩

end IdaHeadless.CloseToken
