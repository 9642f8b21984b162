import IdaHeadless.Dsc.Step
import IdaHeadless.MainLoop.Lifetimes

/-!
# A background DSC open and the database it closes

The cleanup of a background task closes the generation its open returned. The task
owns that generation only if its open made it: `handle_open` also answers with a
database that was open already.
-/

namespace IdaHeadless.Dsc
open MainLoop RequestChannel

variable {pathsMatch : String → String → Bool} {capacity : ℕ} {w w' : World} {m m' : Mem}
  {t u : TaskId} {o : Outcome} {pc : Pc} {mv : Move} {g next : ℕ} {a : Act} {r : IdaRequest}
  {c c' : Requests} {sender : Option TaskId}

/-! ### What a step of a task does -/

/- The task has not sent its open yet. -/
def Pc.unopened : Pc → Bool
  | .start _ | .idat _ _ => true
  | _ => false

/- The generation the task will pass to `close_if_generation`. -/
def Pc.generation : Pc → Option ℕ
  | .awaitModule _ g _ | .awaitFramework _ _ g _ | .awaitStatus g _ | .complete g
  | .sendClose g _ | .awaitClose g _ _ => some g
  | _ => none

/- The ticket of the open the task waits for. -/
def Pc.openTicket : Pc → Option ℕ
  | .awaitOpen _ _ k => some k
  | _ => none

/- The path of an open. -/
def openPath : IdaRequest → Option String
  | .openDb path _ => some path
  | _ => none

/- A request of the task is under way. -/
def Mem.push (m : Mem) (t : TaskId) (r : IdaRequest) : Mem :=
  { m with requests := m.requests.push (some t) r }

/- The task has `g` from before, or from the answer to its open. -/
def Learns (m : Mem) (pc : Pc) (g : ℕ) : Prop :=
  pc.generation = some g ∨ ∃ k service path, pc.openTicket = some k ∧
    m.requests.answer k = some service ∧ service.turn.reply = some (.opened path g)

/- A step of task `t` at `pc`: it sends nothing, it sends its open, or it sends a request
under a generation it has. -/
inductive Effect (m : Mem) (t : TaskId) (pc : Pc) (mv : Move) : Prop where
  | silent (hspawned : mv.spawned = []) (hmem : mv.mem = m)
      (hopen : mv.point.unopened = true → pc.unopened = true)
      (hticket : mv.point.openTicket = none)
      (hgen : ∀ g, mv.point.generation = some g → Learns m pc g)
  | opens (path : String) (hspawned : mv.spawned = []) (hpc : pc.unopened = true)
      (hmem : mv.mem = m.push t (.openDb path true)) (hopen : mv.point.unopened = false)
      (hticket : mv.point.openTicket = some m.requests.next)
      (hgen : mv.point.generation = none)
  | sends (r : IdaRequest) (g : ℕ) (hspawned : mv.spawned = []) (hr : openPath r = none)
      (hclose : ∀ g', r = .closeIfGeneration g' → g' = g) (hmem : mv.mem = m.push t r)
      (hopen : mv.point.unopened = false) (hticket : mv.point.openTicket = none)
      (hgen : mv.point.generation = some g) (hlearns : Learns m pc g)

theorem trySend_ok {k : ℕ} (h : trySend capacity m (some t) r = .ok (m', k)) :
    m' = m.push t r ∧ k = m.requests.next := by
  unfold trySend at h
  split at h
  · cases h
  · split at h
    · cases h
    · cases h
      exact ⟨rfl, rfl⟩

/- A request goes out, or the task carries on with the error. -/
theorem sendThen_cases (capacity : ℕ) (m : Mem) (t : TaskId) (r : IdaRequest) (next : ℕ → Pc)
    (failed : ToolError → Pc) :
    sendThen capacity m t r next failed = ⟨m.push t r, next m.requests.next, []⟩ ∨
    ∃ e, sendThen capacity m t r next failed = ⟨m, failed e, []⟩ := by
  unfold sendThen
  split
  · rename_i m' k h
    obtain ⟨rfl, rfl⟩ := trySend_ok h
    exact .inl rfl
  · exact .inr ⟨_, rfl⟩

theorem completing_generation : (completing m t g).generation = some g := by
  unfold completing
  split <;> rfl

theorem completing_effect (h : Learns m pc g) : Effect m t pc ⟨m, completing m t g, []⟩ := by
  refine .silent rfl rfl ?_ ?_ ?_
  · unfold completing
    split <;> simp [Pc.unopened]
  · unfold completing
    split <;> rfl
  · intro g' hg'
    rw [completing_generation] at hg'
    cases hg'
    exact h

/- Cleanup under a generation the task has. -/
theorem sendClose_effect {why : Cleanup} (h : Learns m pc g) :
    Effect m t pc ⟨m, .sendClose g why, []⟩ :=
  .silent rfl rfl (by simp [Pc.unopened]) rfl (fun _ hg => (by cases hg; exact h))

theorem done_effect {settlement : Settlement} : Effect m t pc ⟨m, .done settlement, []⟩ :=
  .silent rfl rfl (by simp [Pc.unopened]) rfl (fun _ hg => (by cases hg))

theorem openPhase_effect {ctx : DscBackgroundCtx} {path : String} {images : Bool}
    (hpc : pc.unopened = true) : Effect m t pc (openPhase capacity m t ctx path images) := by
  unfold openPhase
  rcases sendThen_cases capacity m t (.openDb path true) (.awaitOpen ctx images)
    (fun e => .done (.toolError e)) with hsent | ⟨e, hfailed⟩
  · rw [hsent]
    exact .opens path rfl hpc rfl rfl rfl rfl
  · rw [hfailed]
    exact done_effect

/- A request under the generation: the task keeps it whether or not the request went out. -/
theorem sendThen_effect {next : ℕ → Pc} {failed : ToolError → Pc}
    (hr : openPath r = none) (hclose : ∀ g', r = .closeIfGeneration g' → g' = g)
    (hopen : ∀ k, (next k).unopened = false) (hticket : ∀ k, (next k).openTicket = none)
    (hgen : ∀ k, (next k).generation = some g) (hlearns : Learns m pc g)
    (hfailed : ∀ e, Effect m t pc ⟨m, failed e, []⟩) :
    Effect m t pc (sendThen capacity m t r next failed) := by
  rcases sendThen_cases capacity m t r next failed with hsent | ⟨e, hfail⟩
  · rw [hsent]
    exact .sends r g rfl hr hclose rfl (hopen _) (hticket _) (hgen _) hlearns
  · rw [hfail]
    exact hfailed e

theorem nextFramework_effect {rest : List String} (h : Learns m pc g) :
    Effect m t pc (nextFramework capacity m t g rest) := by
  cases rest with
  | nil =>
    exact sendThen_effect rfl (by simp) (fun _ => rfl) (fun _ => rfl) (fun _ => rfl) h
      fun _ => completing_effect h
  | cons name rest =>
    exact sendThen_effect rfl (by simp) (fun _ => rfl) (fun _ => rfl) (fun _ => rfl) h
      fun _ => sendClose_effect h

theorem afterImage_effect {failure : ToolError → ToolError} {rest : List String}
    {result : Except ToolError Reply} (h : Learns m pc g) :
    Effect m t pc (afterImage capacity m t g failure rest result) := by
  unfold afterImage
  split
  · exact sendClose_effect h
  · cases result with
    | error e => exact sendClose_effect h
    | ok reply => exact nextFramework_effect h

theorem received_opened {k : ℕ} {path : String} (h : received m k = some (.ok (.opened path g))) :
    ∃ service, m.requests.answer k = some service ∧
      service.turn.reply = some (.opened path g) := by
  unfold received at h
  split at h
  · rename_i service hservice
    refine ⟨service, hservice, ?_⟩
    split at h <;> cases h
    assumption
  · split at h <;> cases h

theorem afterOpen_effect {ctx : DscBackgroundCtx} {images : Bool} {k : ℕ}
    {result : Except ToolError Reply} (hpc : pc.openTicket = some k)
    (hresult : received m k = some result)
    (h : afterOpen capacity m t ctx images result = some mv) : Effect m t pc mv := by
  unfold afterOpen at h
  split at h
  · cases h
    exact done_effect
  · rename_i path g
    obtain ⟨service, hservice, hreply⟩ := received_opened hresult
    have hlearns : Learns m pc g := .inr ⟨k, service, path, hpc, hservice, hreply⟩
    split at h
    · cases h
      exact sendClose_effect hlearns
    · split at h <;> cases h
      · exact sendThen_effect rfl (by simp) (fun _ => rfl) (fun _ => rfl) (fun _ => rfl)
          hlearns fun _ => sendClose_effect hlearns
      · exact completing_effect hlearns
  · cases h

theorem afterIdat_effect {ctx : DscBackgroundCtx} {outI64 : String} (hpc : pc.unopened = true)
    (h : afterIdat capacity m t ctx outI64 o = some mv) : Effect m t pc mv := by
  unfold afterIdat at h
  split at h
  · split at h <;> cases h
    exact done_effect
  · cases h
    exact done_effect
  · split at h
    · cases h
      exact done_effect
    · split at h <;> cases h
      · exact done_effect
      · exact openPhase_effect hpc
  · cases h

theorem advance_effect (h : advance capacity m t o pc = some mv) : Effect m t pc mv := by
  cases pc with
  | start ctx =>
    simp only [advance] at h
    split at h
    · cases h
      exact done_effect
    · split at h <;> cases h
      · exact openPhase_effect rfl
      · exact .silent rfl rfl (fun _ => rfl) rfl (fun _ hg => (by cases hg))
  | idat ctx outI64 => exact afterIdat_effect rfl h
  | awaitOpen ctx images k =>
    obtain ⟨result, hresult, hafter⟩ := Option.bind_eq_some_iff.mp h
    exact afterOpen_effect rfl hresult hafter
  | awaitModule ctx g k | awaitFramework name rest g k =>
    obtain ⟨result, -, rfl⟩ := Option.map_eq_some_iff.mp h
    exact afterImage_effect (.inl rfl)
  | awaitStatus g k =>
    obtain ⟨result, -, rfl⟩ := Option.map_eq_some_iff.mp h
    exact completing_effect (.inl rfl)
  | complete g =>
    simp only [advance] at h
    split at h <;> cases h
    · exact done_effect
    · exact sendClose_effect (.inl rfl)
    · exact done_effect
  | sendClose g why =>
    simp only [advance] at h
    split at h <;> cases h
    · rename_i m' k _ hsend
      obtain ⟨rfl, rfl⟩ := trySend_ok hsend
      exact .sends (.closeIfGeneration g) g rfl rfl (by simp) rfl rfl rfl rfl (.inl rfl)
    · exact done_effect
    · exact sendClose_effect (.inl rfl)
    · exact done_effect
  | awaitClose g why k =>
    obtain ⟨result, -, rfl⟩ := Option.map_eq_some_iff.mp h
    exact done_effect
  | done settlement => cases h

/-! ### The log -/

/- The request is the open of task `t`. -/
def opensBy (t : TaskId) (msg : Message (Option TaskId) IdaRequest) : Bool :=
  msg.sender == some t && (openPath msg.request).isSome

theorem opensBy_iff {msg : Message (Option TaskId) IdaRequest} :
    opensBy t msg = true ↔ msg.sender = some t ∧ ∃ path, openPath msg.request = some path := by
  simp [opensBy, Option.isSome_iff_exists]

/- The opens task `t` has sent. -/
def opensOf (c : Requests) (t : TaskId) : List (Message (Option TaskId) IdaRequest) :=
  c.sent.filter (opensBy t)

/- The open of task `t` was answered with generation `g`. -/
def Knows (c : Requests) (t : TaskId) (g : ℕ) : Prop :=
  ∃ msg service path, (msg, service) ∈ c.served ∧ opensBy t msg = true ∧
    service.turn.reply = some (.opened path g)

/- What task `u` can rely on while others move: the log only grows, and nobody else
sends its open. -/
structure Grows (u : TaskId) (c c' : Requests) : Prop where
  served : ∀ x ∈ c.served, x ∈ c'.served
  sent : ∀ msg ∈ c.sent, msg ∈ c'.sent
  opens : opensOf c' u = opensOf c u

theorem Grows.refl (u : TaskId) (c : Requests) : Grows u c c := ⟨fun _ h => h, fun _ h => h, rfl⟩

theorem Knows.grows (h : Knows c t g) (hc : Grows u c c') : Knows c' t g := by
  obtain ⟨msg, service, path, hserved, hopens, hreply⟩ := h
  exact ⟨msg, service, path, hc.served _ hserved, hopens, hreply⟩

/- What holds of a task at its point: an open that it has not sent is not in the log, the
open it waits for is its own, and its generation is the answer to its open. -/
structure Good (c : Requests) (t : TaskId) (pc : Pc) : Prop where
  unopened : pc.unopened = true → opensOf c t = []
  waits : ∀ k, pc.openTicket = some k → ∃ msg ∈ c.sent, msg.ticket = k ∧ opensBy t msg = true
  knows : ∀ g, pc.generation = some g → Knows c t g

theorem Good.grows (h : Good c t pc) (hc : Grows t c c') : Good c' t pc := by
  refine ⟨?_, ?_, ?_⟩
  · intro hpc
    rw [hc.opens]
    exact h.unopened hpc
  · intro k hk
    obtain ⟨msg, hmsg, hticket, hopens⟩ := h.waits k hk
    exact ⟨msg, hc.sent msg hmsg, hticket, hopens⟩
  · intro g hg
    exact (h.knows g hg).grows hc

/- The channel's part of the invariant: every task sends one open at most, every cleanup
names the generation its task's open was answered with, and an open that was answered
made its database. -/
structure Log (next : ℕ) (c : Requests) : Prop where
  ticketed : c.Ticketed
  senders : ∀ msg ∈ c.sent, ∀ t, msg.sender = some t → t < next
  once : ∀ t, (opensOf c t).length ≤ 1
  cleanups : ∀ msg ∈ c.sent, ∀ t g, msg.sender = some t → msg.request = .closeIfGeneration g →
    Knows c t g
  own : ∀ x ∈ c.served, ∀ t path g, opensBy t x.1 = true →
    x.2.turn.reply = some (.opened path g) → x.2.before = none

/-! ### A request goes out -/

theorem push_opensOf (c : Requests) (sender : Option TaskId) (u : TaskId) (r : IdaRequest) :
    opensOf (c.push sender r) u = opensOf c u ++ [⟨c.next, sender, r⟩].filter (opensBy u) := by
  unfold opensOf
  rw [sent_push, List.filter_append]

theorem push_grows (c : Requests) (r : IdaRequest) (h : opensBy u ⟨c.next, sender, r⟩ = false) :
    Grows u c (c.push sender r) := by
  refine ⟨fun _ hx => hx, ?_, ?_⟩
  · intro msg hmsg
    rw [sent_push]
    exact List.mem_append_left _ hmsg
  · rw [push_opensOf, List.filter_cons_of_neg (by simp [h]), List.filter_nil, List.append_nil]

theorem opensBy_other {k : ℕ} (hut : sender ≠ some u) : opensBy u ⟨k, sender, r⟩ = false := by
  rw [← Bool.not_eq_true, opensBy_iff]
  rintro ⟨hsender, -⟩
  exact hut hsender

theorem opensBy_not_open {k : ℕ} (hr : openPath r = none) :
    opensBy u ⟨k, sender, r⟩ = false := by
  simp [opensBy, hr]

theorem push_log (hL : Log next c) (hlt : ∀ t, sender = some t → t < next)
    (hr : ∀ t, opensBy t ⟨c.next, sender, r⟩ = true → opensOf c t = [])
    (hclose : ∀ t g, sender = some t → r = .closeIfGeneration g → Knows c t g) :
    Log next (c.push sender r) := by
  have hsent : ∀ msg ∈ (c.push sender r).sent, msg ∈ c.sent ∨ msg = ⟨c.next, sender, r⟩ := by
    intro msg hmsg
    rw [sent_push] at hmsg
    simpa using hmsg
  have hknows : ∀ u g, Knows c u g → Knows (c.push sender r) u g := fun _ _ h => h
  refine ⟨ticketed_push hL.ticketed, ?_, ?_, ?_, hL.own⟩
  · intro msg hmsg u hu
    rcases hsent msg hmsg with hold | rfl
    · exact hL.senders msg hold u hu
    · exact hlt u hu
  · intro u
    rw [push_opensOf, List.length_append]
    by_cases hopen : opensBy u ⟨c.next, sender, r⟩ = true
    · rw [hr u hopen, List.filter_cons_of_pos hopen]
      simp
    · rw [List.filter_cons_of_neg hopen]
      simpa using hL.once u
  · intro msg hmsg u g hu hg
    rcases hsent msg hmsg with hold | rfl
    · exact hknows u g (hL.cleanups msg hold u g hu hg)
    · exact hknows u g (hclose u g hu hg)

/-! ### The loop serves a request -/

theorem serve_grows {msg : Message (Option TaskId) IdaRequest}
    {rest : List (Message (Option TaskId) IdaRequest)} (service : Service)
    (h : c.queue = msg :: rest) (u : TaskId) : Grows u c (c.serve msg rest service) := by
  refine ⟨fun _ hx => List.mem_append_left _ hx, ?_, ?_⟩
  · intro msg' hmsg'
    rw [sent_serve h]
    exact hmsg'
  · unfold opensOf
    rw [sent_serve h]

/- What the loop answers to a background open decides about `own`. -/
theorem serve_log {msg : Message (Option TaskId) IdaRequest}
    {rest : List (Message (Option TaskId) IdaRequest)} {service : Service} (hL : Log next c)
    (h : c.queue = msg :: rest)
    (hown : ∀ t path g, opensBy t msg = true → service.turn.reply = some (.opened path g) →
      service.before = none) :
    Log next (c.serve msg rest service) := by
  have hsent := sent_serve (e := service) h
  refine ⟨ticketed_serve hL.ticketed h, ?_, ?_, ?_, ?_⟩
  · rw [hsent]
    exact hL.senders
  · intro t
    rw [(serve_grows service h t).opens]
    exact hL.once t
  · rw [hsent]
    intro msg' hmsg' t g ht hg
    exact (hL.cleanups msg' hmsg' t g ht hg).grows (serve_grows service h t)
  · intro x hx
    rcases List.mem_append.mp hx with hold | hnew
    · exact hL.own x hold
    · obtain rfl := List.mem_singleton.mp hnew
      exact hown

/-! ### Runs -/

structure Inv (w : World) : Prop where
  fresh : w.Fresh
  log : Log w.next w.mem.requests
  good : ∀ t pc, w.tasks t = some pc → Good w.mem.requests t pc

/- The open of a background task finds no database open under its path. -/
def FindsNone (pathsMatch : String → String → Bool) (w : World) : Act → Prop
  | .serve _ =>
    ∀ msg ∈ w.mem.requests.queue.head?, msg.sender.isSome = true →
      ∀ path ∈ openPath msg.request, ∀ db ∈ w.mem.loop.idb, pathsMatch db.path path = false
  | _ => True

instance (pathsMatch : String → String → Bool) (w : World) :
    ∀ a, Decidable (FindsNone pathsMatch w a)
  | .serve _ => inferInstanceAs (Decidable (∀ msg ∈ w.mem.requests.queue.head?, _))
  | .client _ | .spawn _ | .cancel _ | .advance _ _ | .interrupt _ | .exitNow => isTrue trivial

theorem init_inv (lib : Bool) (fault : Option String) : Inv (init lib fault) := by
  refine ⟨fun _ _ => rfl, ⟨ticketed_empty, ?_, ?_, ?_, ?_⟩, fun _ _ h => (by cases h)⟩
  · intro msg hmsg
    cases hmsg
  · intro t
    exact Nat.zero_le 1
  · intro msg hmsg
    cases hmsg
  · intro x hx
    cases hx

theorem Inv.lt_next (hI : Inv w) (h : w.tasks t = some pc) : t < w.next := by
  by_contra hle
  have hnone := hI.fresh t (Nat.le_of_not_lt hle)
  rw [h] at hnone
  cases hnone

/- A change of the memory that every task can rely on. -/
theorem Inv.mem (hI : Inv w) (hL : Log w.next m.requests)
    (hgrows : ∀ t, Grows t w.mem.requests m.requests) : Inv { w with mem := m } :=
  ⟨hI.fresh, hL, fun t pc ht => (hI.good t pc ht).grows (hgrows t)⟩

/- What a task learns is the answer to its own open. -/
theorem Learns.knows (hI : Inv w) (ht : w.tasks t = some pc) (h : Learns w.mem pc g) :
    Knows w.mem.requests t g := by
  rcases h with hgen | ⟨k, service, path, hticket, hanswer, hreply⟩
  · exact (hI.good t pc ht).knows g hgen
  · obtain ⟨msg, hmsg, rfl, hopens⟩ := (hI.good t pc ht).waits k hticket
    exact ⟨msg, service, path, answer_of_sent hI.log.ticketed hmsg hanswer, hopens, hreply⟩

theorem spawn_inv (hI : Inv w) {ctx : DscBackgroundCtx} : Inv (w.spawn [.start ctx]) := by
  have hopens : opensOf w.mem.requests w.next = [] := by
    unfold opensOf
    rw [List.filter_eq_nil_iff]
    intro msg hmsg hopens
    exact absurd (hI.log.senders msg hmsg w.next (opensBy_iff.mp hopens).1) (Nat.lt_irrefl _)
  refine ⟨Tasks.spawn_fresh _ _, ?_, ?_⟩
  · refine ⟨hI.log.ticketed, ?_, hI.log.once, hI.log.cleanups, hI.log.own⟩
    intro msg hmsg t ht
    exact Nat.lt_succ_of_lt (hI.log.senders msg hmsg t ht)
  · intro t pc ht
    rcases Tasks.spawn_tasks ht with hold | ⟨i, rfl, hi⟩
    · exact hI.good t pc hold
    · cases i with
      | zero =>
        cases hi
        exact ⟨fun _ => hopens, fun _ hk => (by cases hk), fun _ hg => (by cases hg)⟩
      | succ i => cases hi

/- The moved task meets its assertion, the others rely on what they had. -/
theorem resume_inv (hI : Inv w) (hspawned : mv.spawned = []) (hL : Log w.next mv.mem.requests)
    (hgrows : ∀ u, u ≠ t → Grows u w.mem.requests mv.mem.requests)
    (hself : Good mv.mem.requests t mv.point) : Inv (w.resume t mv) := by
  refine ⟨Tasks.resume_fresh _ _ _, ?_, ?_⟩
  · have hnext : (w.resume t mv).next = w.next := by
      simp [Tasks.World.resume, Tasks.World.spawn, hspawned]
    rw [hnext]
    exact hL
  · intro u pc hu
    rcases Tasks.resume_tasks hu with ⟨rfl, rfl⟩ | ⟨hne, hold⟩ | ⟨i, -, hi⟩
    · exact hself
    · exact (hI.good u pc hold).grows (hgrows u hne)
    · rw [hspawned] at hi
      cases hi

theorem advance_inv (hI : Inv w) (ht : w.tasks t = some pc)
    (h : advance capacity w.mem t o pc = some mv) : Inv (w.resume t mv) := by
  have hlt := hI.lt_next ht
  rcases advance_effect h with ⟨hspawned, hmem, hopen, hticket, hgen⟩ |
    ⟨path, hspawned, hpc, hmem, hopen, hticket, hgen⟩ |
    ⟨r, g, hspawned, hr, hclose, hmem, hopen, hticket, hgen, hlearns⟩
  · refine resume_inv hI hspawned (hmem ▸ hI.log) (fun u _ => hmem ▸ Grows.refl u _) ?_
    rw [hmem]
    refine ⟨fun hun => (hI.good t pc ht).unopened (hopen hun), ?_, ?_⟩
    · intro k hk
      rw [hticket] at hk
      cases hk
    · intro g hg
      exact (hgen g hg).knows hI ht
  · have hnone := (hI.good t pc ht).unopened hpc
    refine resume_inv hI hspawned ?_ ?_ ?_
    · rw [hmem]
      refine push_log hI.log ?_ ?_ ?_
      · rintro u ⟨⟩
        exact hlt
      · intro u hu
        cases (opensBy_iff.mp hu).1
        exact hnone
      · intro u g _ hg
        cases hg
    · intro u hne
      rw [hmem]
      exact push_grows _ _ (opensBy_other fun he => hne (Option.some.inj he).symm)
    · rw [hmem]
      refine ⟨?_, ?_, ?_⟩
      · intro hun
        rw [hopen] at hun
        cases hun
      · intro k hk
        rw [hticket] at hk
        cases hk
        refine ⟨⟨w.mem.requests.next, some t, .openDb path true⟩, ?_, rfl, ?_⟩
        · show _ ∈ (w.mem.requests.push (some t) (.openDb path true)).sent
          rw [sent_push]
          exact List.mem_append_right _ (List.mem_singleton_self _)
        · exact opensBy_iff.mpr ⟨rfl, path, rfl⟩
      · intro g hg
        rw [hgen] at hg
        cases hg
  · have hknows := hlearns.knows hI ht
    have hgrows : ∀ u, Grows u w.mem.requests (w.mem.requests.push (some t) r) :=
      fun u => push_grows _ _ (opensBy_not_open hr)
    refine resume_inv hI hspawned ?_ ?_ ?_
    · rw [hmem]
      refine push_log hI.log ?_ ?_ ?_
      · rintro u ⟨⟩
        exact hlt
      · intro u hu
        rw [opensBy_not_open hr] at hu
        cases hu
      · rintro u g' ⟨⟩ hg'
        rw [hclose g' hg']
        exact hknows
    · intro u _
      rw [hmem]
      exact hgrows u
    · rw [hmem]
      refine ⟨?_, ?_, ?_⟩
      · intro hun
        rw [hopen] at hun
        cases hun
      · intro k hk
        rw [hticket] at hk
        cases hk
      · intro g' hg'
        rw [hgen] at hg'
        cases hg'
        exact hknows.grows (hgrows t)

/- The answer to a background open that finds no database under its path comes with a new
one. -/
theorem serveNext_inv {ans : Answers} (hI : Inv w) (hG : FindsNone pathsMatch w (.serve ans))
    (h : serveNext pathsMatch w.mem ans = some m) : Inv { w with mem := m } := by
  unfold serveNext at h
  split at h
  · cases h
  · rename_i msg rest hqueue
    split at h <;> cases h
    refine hI.mem (serve_log hI.log hqueue ?_) (serve_grows _ hqueue)
    intro t p g hopens hreply
    obtain ⟨hsender, path, hpath⟩ := opensBy_iff.mp hopens
    show w.mem.loop.idb = none
    by_contra hsome
    obtain ⟨db, hdb⟩ := Option.ne_none_iff_exists'.mp hsome
    have hno : pathsMatch db.path path = false :=
      hG msg (by simp [hqueue]) (by simp [hsender]) path hpath db hdb
    cases hr : msg.request with
    | openDb path' cancel =>
      rw [hr] at hpath hreply
      cases hpath
      rw [turn_opened hdb hreply] at hno
      cases hno
    | close _ | closeIfGeneration _ | analysisStatus _ | dscLoadImage _ _ | analyzeFuncs _
    | runScript _ | tool _ | shutdown =>
      rw [hr] at hpath
      cases hpath

theorem loopEvent_inv {b : MainLoop.Act} (hI : Inv w)
    (h : loopEvent pathsMatch w.mem b = some m) : Inv { w with mem := m } := by
  obtain ⟨loop, -, rfl⟩ := Option.map_eq_some_iff.mp h
  exact hI.mem hI.log fun u => Grows.refl u _

theorem client_inv {k : ℕ} (hI : Inv w) (h : trySend capacity w.mem none r = .ok (m, k)) :
    Inv { w with mem := m } := by
  have hm : m = { w.mem with requests := w.mem.requests.push none r } := by
    unfold trySend at h
    split at h
    · cases h
    · split at h <;> cases h
      rfl
  subst hm
  refine hI.mem (push_log hI.log ?_ ?_ ?_) fun u => push_grows _ _ (opensBy_other (by simp))
  · intro t ht
    cases ht
  · intro t ht
    cases (opensBy_iff.mp ht).1
  · intro t g ht
    cases ht

theorem step_inv (hI : Inv w) (hG : FindsNone pathsMatch w a)
    (h : step pathsMatch capacity w a = some w') : Inv w' := by
  cases a with
  | client r =>
    simp only [step] at h
    split at h <;> cases h
    · rename_i hsend
      exact client_inv hI hsend
    · exact hI
  | spawn ctx =>
    cases h
    exact spawn_inv hI
  | cancel t =>
    cases h
    exact hI.mem hI.log fun u => Grows.refl u _
  | advance t o =>
    obtain ⟨mv, hmv, rfl⟩ := Option.map_eq_some_iff.mp h
    obtain ⟨pc, ht, hadv⟩ := Option.bind_eq_some_iff.mp hmv
    exact advance_inv hI ht hadv
  | serve ans =>
    obtain ⟨m, hm, rfl⟩ := Option.map_eq_some_iff.mp h
    exact serveNext_inv hI hG hm
  | interrupt signal | exitNow =>
    obtain ⟨m, hm, rfl⟩ := Option.map_eq_some_iff.mp h
    exact loopEvent_inv hI hm

/-! ### Ownership -/

/- The open of a task, in the log: there is one only. -/
theorem Log.open_unique (hL : Log next c) {x y : Message (Option TaskId) IdaRequest × Service}
    (hx : x ∈ c.served) (hy : y ∈ c.served) (hxt : opensBy t x.1 = true)
    (hyt : opensBy t y.1 = true) : x = y := by
  have hxmem : x.1 ∈ opensOf c t := List.mem_filter.mpr ⟨served_sent hx, hxt⟩
  have hymem : y.1 ∈ opensOf c t := List.mem_filter.mpr ⟨served_sent hy, hyt⟩
  have hfirst : x.1 = y.1 := by
    obtain ⟨msg, hmsg⟩ := List.length_eq_one_iff.mp
      (Nat.le_antisymm (hL.once t) (List.length_pos_of_mem hxmem))
    rw [hmsg] at hxmem hymem
    exact (List.mem_singleton.mp hxmem).trans (List.mem_singleton.mp hymem).symm
  obtain ⟨msg, service⟩ := x
  obtain ⟨msg', service'⟩ := y
  cases hfirst
  rw [served_inj hL.ticketed hx hy]

/-- In a run in which no background open finds a database under its path: when the cleanup
of a background task closes a database, that database was not open when the task's own
open was served. -/
theorem dsc_cleanup_closes_own {lib : Bool} {fault : Option String} {as : List Act}
    (hG : Runs.Along (step pathsMatch capacity) (FindsNone pathsMatch) (init lib fault) as)
    (hrun : Runs.run (step pathsMatch capacity) (init lib fault) as = some w)
    {cleanup : Message (Option TaskId) IdaRequest} {service : Service}
    (hcleanup : (cleanup, service) ∈ w.mem.requests.served) (hsender : cleanup.sender = some t)
    (hrequest : cleanup.request = .closeIfGeneration g) :
    (∃ x ∈ w.mem.requests.served, opensBy t x.1 = true) ∧
    ∀ db, service.before = some db → service.turn.state.idb = none →
      ∀ x ∈ w.mem.requests.served, opensBy t x.1 = true → x.2.before ≠ some db := by
  have hI : Inv w :=
    Runs.run_inv_along Inv (fun _ _ _ hI hG h => step_inv hI hG h) (init_inv lib fault) hG hrun
  obtain ⟨opening, answered, path, hserved, hopens, hreply⟩ :=
    hI.log.cleanups cleanup (served_sent hcleanup) t g hsender hrequest
  refine ⟨⟨_, hserved, hopens⟩, ?_⟩
  intro db _ _ x hx hxt
  have hnone : x.2.before = none := by
    rw [hI.log.open_unique hx hserved hxt hopens]
    exact hI.log.own _ hserved t path g hopens hreply
  simp [hnone]

/- IDA opens whatever it is asked to. -/
def opening : Answers := ⟨none, .ok none, .opened "cache.i64" "cache.imcp", .ok⟩

def ctx : DscBackgroundCtx := ⟨.legacyIdat "cache.i64", "libobjc", []⟩

/- The log has a cleanup of task 0 that closed `db`, and an open of task 0 that was taken
with `before` open. -/
def closedAfter (db : Idb) (before : Option Idb) (w : World) : Bool :=
  (w.mem.requests.served.any fun x => x.1.sender == some 0 &&
    x.1.request == .closeIfGeneration 1 && x.2.before == some db && x.2.turn.state.idb == none) &&
  w.mem.requests.served.any fun x => opensBy 0 x.1 && x.2.before == before

theorem closedAfter_served {db : Idb} {before : Option Idb} (h : closedAfter db before w = true) :
    (∃ cleanup service, (cleanup, service) ∈ w.mem.requests.served ∧ cleanup.sender = some 0 ∧
      cleanup.request = .closeIfGeneration 1 ∧ service.before = some db ∧
      service.turn.state.idb = none) ∧
    ∃ x ∈ w.mem.requests.served, opensBy 0 x.1 = true ∧ x.2.before = before := by
  simp only [closedAfter, Bool.and_eq_true, List.any_eq_true, beq_iff_eq] at h
  obtain ⟨⟨⟨cleanup, service⟩, hmem, ⟨⟨hsender, hrequest⟩, hbefore⟩, hclosed⟩, x, hx, hopens,
    hx'⟩ := h
  exact ⟨⟨cleanup, service, hmem, hsender, hrequest, hbefore, hclosed⟩, x, hx, hopens, hx'⟩

/- A background task opens its database and is cancelled. -/
def cancelledOpen : List Act :=
  [.spawn ctx, .advance 0 .go, .advance 0 (.idatExited none), .serve opening, .cancel 0,
    .advance 0 .go, .advance 0 .go, .serve opening]

theorem dsc_cleanup_closes_own_cancelled :
    ∃ w, Runs.run (step (· == ·) 8) (init false none) cancelledOpen = some w ∧
      ∃ cleanup service, (cleanup, service) ∈ w.mem.requests.served ∧
        service.before = some ⟨"cache.i64", 0⟩ ∧ service.turn.state.idb = none ∧
        ∀ x ∈ w.mem.requests.served, opensBy 0 x.1 = true →
          x.2.before ≠ some ⟨"cache.i64", 0⟩ := by
  have hrun : (Runs.run (step (· == ·) 8) (init false none) cancelledOpen).any
      (closedAfter ⟨"cache.i64", 0⟩ none) = true := by
    decide +kernel
  have hG : Runs.Along (step (· == ·) 8) (FindsNone (· == ·)) (init false none) cancelledOpen := by
    decide +kernel
  obtain ⟨w, hw, hlog⟩ := (Option.any_eq_true _ _).mp hrun
  obtain ⟨⟨cleanup, service, hmem, hsender, hrequest, hbefore, hclosed⟩, -⟩ :=
    closedAfter_served hlog
  obtain ⟨-, hown⟩ := dsc_cleanup_closes_own hG hw hmem hsender hrequest
  exact ⟨w, hw, cleanup, service, hmem, hbefore, hclosed, hown _ hbefore hclosed⟩

/- While `idat` works for the task, a client opens the database that comes out of it. The
task's open is answered with the client's database, and the cancelled task closes it. -/
def adoptedOpen : List Act :=
  [.spawn ctx, .advance 0 .go, .client (.openDb "cache.i64" false), .serve opening,
    .advance 0 (.idatExited none), .serve opening, .cancel 0, .advance 0 .go, .advance 0 .go,
    .serve opening]

theorem dsc_cleanup_closes_adopted :
    ∃ w, Runs.run (step (· == ·) 8) (init false none) adoptedOpen = some w ∧
      (∃ cleanup service, (cleanup, service) ∈ w.mem.requests.served ∧ cleanup.sender = some 0 ∧
        cleanup.request = .closeIfGeneration 1 ∧ service.before = some ⟨"cache.i64", 0⟩ ∧
        service.turn.state.idb = none) ∧
      ∃ x ∈ w.mem.requests.served, opensBy 0 x.1 = true ∧
        x.2.before = some ⟨"cache.i64", 0⟩ := by
  have hrun : (Runs.run (step (· == ·) 8) (init false none) adoptedOpen).any
      (closedAfter ⟨"cache.i64", 0⟩ (some ⟨"cache.i64", 0⟩)) = true := by
    decide +kernel
  obtain ⟨w, hw, hlog⟩ := (Option.any_eq_true _ _).mp hrun
  exact ⟨w, hw, closedAfter_served hlog⟩

end IdaHeadless.Dsc
