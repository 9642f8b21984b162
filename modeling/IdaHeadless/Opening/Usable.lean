import IdaHeadless.Opening.Step
import IdaHeadless.WorkerPool.Leak

/-!
# An open that succeeds leaves a usable session

The session of an opening is touched by the one future that the opening awaits, so its
lease can only be lost in two ways: a warmup probe ends in a way that makes `dispatch`
retire the worker, or another task marks the worker dead. Nothing after the probes looks
at the handle again, so a lease lost in the warmup is inserted all the same.
-/

namespace IdaHeadless.Opening
open IdaHeadless.WorkerPool hiding init start step Act

variable {cfg : Config} {own : Own} {w w' : World} {a : WorkerPool.Act} {k : SessionRef}
  {t u : TaskId} {p q : Pc} {h : Handle} {s : Pool} {m : Move} {outcome : Outcome}
  {sessionId : String} {o : Attempt}

/-! ### The tasks of one session -/

/- The session whose handle a task can still read or write. -/
def touches : Pc → Option SessionRef
  | .takeHandle k _ true => some k
  | p => p.borrows

/- Every session a task touches has been made. -/
def Touched (w : World) : Prop :=
  ∀ u p k, w.tasks u = some p → touches p = some k → w.mem.idOf k ≠ none

theorem touches_flow (hf : Flow p q) (hq : touches q = some k) : touches p = some k := by
  cases hf with
  | retireTake w ctx | retireForget w ctx | retireCheck w ctx | retireSpawn w ctx
  | retireInstall w ctx => cases ctx <;> exact hq
  | _ => first | exact hq | cases hq

/- A task touches a session after a step because it did before, or because the step
started it on that session. -/
theorem touches_before (hstep : WorkerPool.step cfg w a = some w') (hq : w'.tasks u = some q)
    (hk : touches q = some k) :
    (∃ p, w.tasks u = some p ∧ touches p = some k) ∨
      (w.next ≤ u ∧ w.mem.idOf k ≠ none ∧
        ((∃ secs, a = .openObserved k secs) ∨ (∃ tool secs, a = .callTool k tool secs) ∨
          (∃ save, a = .closeWithSave k save) ∨ a = .dropSession k)) := by
  have hmade : ∀ pc, WorkerPool.start w k pc = some w' → w.mem.idOf k ≠ none := by
    intro pc hstart hnone
    have hsome := start_alive hstart
    unfold Pool.droppedOf at hsome
    unfold Pool.idOf at hnone
    rw [Option.map_eq_none_iff] at hnone
    rw [hnone] at hsome
    cases hsome
  cases step_task hstep hq with
  | kept before other => exact .inl ⟨q, before, hk⟩
  | moved outcome p m act before move point world =>
    rcases advance_goes move with hf | ⟨exit, he, -⟩
    · rw [← point] at hf
      exact .inl ⟨p, before, touches_flow hf hk⟩
    · rw [point, he] at hk
      cases hk
  | dropped p m act before move point world =>
    obtain ⟨exit, he⟩ := dropTask_point move
    rw [point, he] at hk
    cases hk
  | started before start =>
    cases start with
    | openObserved j secs =>
      cases hk
      exact .inr ⟨before, hmade _ hstep, .inl ⟨secs, rfl⟩⟩
    | callTool j tool secs =>
      cases hk
      exact .inr ⟨before, hmade _ hstep, .inr (.inl ⟨tool, secs, rfl⟩)⟩
    | closeWithSave j save =>
      cases hk
      exact .inr ⟨before, hmade _ hstep, .inr (.inr (.inl ⟨save, rfl⟩))⟩
    | dropSession j =>
      cases hk
      refine .inr ⟨before, ?_, .inr (.inr (.inr rfl))⟩
      intro hnone
      unfold Pool.idOf at hnone
      rw [Option.map_eq_none_iff] at hnone
      simp only [WorkerPool.step, hnone] at hstep
      cases hstep
    | shutdownAll | reap => cases hk
    | drops t p q pc_eq left => cases left <;> cases hk

theorem touched_step (hT : Touched w) (hI : WorkerPool.Inv cfg own w)
    (hstep : WorkerPool.step cfg w a = some w') : Touched w' := by
  intro u q k hq hk
  obtain ⟨own', -, hages, -⟩ := step_inv hI hstep
  have hmade : w.mem.idOf k ≠ none := by
    rcases touches_before hstep hq hk with ⟨p, hp, hpk⟩ | ⟨-, hid, -⟩
    · exact hT u p k hp hpk
    · exact hid
  obtain ⟨x, hx⟩ := Option.ne_none_iff_exists'.mp hmade
  rw [hages.id k x hx]
  simp

/-! ### What keeps a lease -/

/- A handle changes only with the future of its session. -/
theorem handle_kept (hI : WorkerPool.Inv cfg own w) (hstep : WorkerPool.step cfg w a = some w')
    (hfree : ∀ u outcome p, a = .advance u outcome → w.tasks u = some p → touches p ≠ some k) :
    w'.mem.handleOf k = w.mem.handleOf k := by
  by_cases ha : ∀ u outcome, a ≠ .advance u outcome
  · exact step_handle hI hstep ha k
  · push Not at ha
    obtain ⟨u, outcome, rfl⟩ := ha
    obtain ⟨p, m, hp, hm, rfl⟩ := step_advance_iff.mp hstep
    have hnot := hfree u outcome p rfl hp
    cases advance_session hm k with
    | same handle dropped => exact handle
    | stored timeout v sessionId pc_eq handle dropped =>
      rcases pc_eq with ⟨rest, active, deadIds, rfl⟩ | rfl <;> exact absurd rfl hnot
    | taken save detached h pc_eq before next handle dropped =>
      subst pc_eq
      cases detached <;> exact absurd rfl hnot
    | cleared h retire err pc_eq before next handle dropped =>
      subst pc_eq
      exact absurd rfl hnot

/- The slot of a handle stays leased until it is marked dead: it is not idle, and its owner
is the session. -/
theorem leased_kept (hI : WorkerPool.Inv cfg own w) (hstep : WorkerPool.step cfg w a = some w')
    (hh : w.mem.handleOf k = some h) (hs : w.mem.stateOf h.workerId = some (.leased sessionId))
    (hsafe : ∀ u outcome ctx, a = .advance u outcome →
      w.tasks u ≠ some (.retire h.workerId ctx .take)) :
    w'.mem.stateOf h.workerId = some (.leased sessionId) := by
  obtain ⟨hown, -, hknown, -⟩ := hI.global.handle_ok k h hh
  rcases step_slot hstep h.workerId with ⟨hsame, -⟩ | ⟨u, outcome, p, rfl, hp, hc⟩
  · exact hsame.trans hs
  · have hgood := hI.good u p hp
    cases hc with
    | same state sent => exact state.trans hs
    | called j h' caller timeout pc_eq worker before state => exact state.trans hs
    | builtIdle pc_eq state =>
      rcases pc_eq with ⟨left, rfl⟩ | ⟨v, ctx, rfl⟩
      · exact absurd hgood.2.2.2.1 hknown.2
      · exact absurd hgood.2.2.2.2.1 hknown.2
    | builtLeased j timeout sid pc_eq id state =>
      subst pc_eq
      exact absurd hgood.2.2.1 hknown.2
    | granted j timeout active rest deadIds sid pc_eq before id state sent =>
      rw [hs] at before
      cases before
    | closing h' save pc_eq worker before state =>
      subst pc_eq
      have howner : own h'.workerId = .task u := hgood.2.2.1
      rw [worker, hown] at howner
      cases howner
    | recycled h' save pc_eq worker before state path =>
      subst pc_eq
      have howner : own h'.workerId = .task u := hgood.2.2.1
      rw [worker, hown] at howner
      cases howner
    | retired ctx pc_eq state sent =>
      subst pc_eq
      exact absurd hp (hsafe u outcome ctx rfl)
    | reaped started pc_eq before state sent =>
      rw [hs] at before
      cases before

/-! ### The future of the open -/

/- What the opening of session `k` knows while `open_observed` waits at `p`. The request is
sent only on a leased slot. -/
def OpenPoint (s : Pool) (k : SessionRef) (sessionId : String) : Pc → Prop
  | .lease j _ _ => j = k ∧ s.handleOf k = none
  | .call j h (.openObserved _) _ stage => j = k ∧ s.handleOf k = some h ∧
      (stage = .await → s.stateOf h.workerId = some (.leased sessionId))
  | .openStore j h _ => j = k ∧ s.handleOf k = some h ∧
      s.stateOf h.workerId = some (.leased sessionId)
  | .retire _ (.call j _ (.openObserved _) _) _ | .takeHandle j _ false => j = k
  | .release .. | .retire _ (.release ..) _ => True
  | .done .ok => Usable s k sessionId
  | .done _ => True
  | _ => False

theorem openErrPc_point {fresh : Bool} {err : ToolError} :
    OpenPoint s k sessionId (openErrPc k fresh err) := by
  unfold openErrPc
  split
  · rfl
  · trivial

theorem scanNext_point {timeout active : ℕ} {rest deadIds : List WorkerId}
    (hnone : s.handleOf k = none) :
    OpenPoint (scanNext cfg s k timeout rest active deadIds).mem k sessionId
      (scanNext cfg s k timeout rest active deadIds).point := by
  unfold scanNext
  split
  · exact ⟨rfl, hnone⟩
  · split
    · trivial
    · exact ⟨rfl, hnone⟩

theorem leased_point {se : Session} {timeout : ℕ} {v : WorkerId} :
    OpenPoint (leased s k se timeout v).mem k sessionId (leased s k se timeout v).point := by
  refine ⟨rfl, ?_, by simp⟩
  exact handleOf_setSession.trans (if_pos rfl)

theorem lease_point {timeout : ℕ} {stage : LeaseStage} (hnone : s.handleOf k = none)
    (hm : advanceLease cfg s t k timeout stage outcome = some m) :
    OpenPoint m.mem k sessionId m.point := by
  cases advanceLease_move hm with
  | held se h session free handle =>
    rw [handleOf_eq session, handle] at hnone
    cases hnone
  | locked se session free handle =>
    refine ⟨rfl, ?_⟩
    rw [handleOf_setSession, if_pos rfl]
    exact handle
  | scans free => exact scanNext_point hnone
  | foundDead v rest active deadIds slot found dead => exact scanNext_point hnone
  | foundBusy v rest active deadIds slot found live busy => exact scanNext_point hnone
  | granted v rest active deadIds slot se found idle session => exact leased_point
  | spawned id se session => exact ⟨rfl, hnone⟩
  | spawnFailed id started detail => exact ⟨rfl, hnone⟩
  | installed id se free session => exact leased_point
  | failed id err free => trivial

theorem call_point {caller : Caller} {timeout : ℕ} {stage : CallStage}
    (hid : s.idOf k = some sessionId) (hsid : s.idOf k = some h.sessionId)
    (hg : OpenPoint s k sessionId (.call k h caller timeout stage))
    (hm : advanceCall s t k h caller timeout stage outcome = some m) :
    OpenPoint m.mem k sessionId m.point := by
  cases caller with
  | dispatch tool => exact hg.elim
  | openObserved fresh =>
    obtain ⟨-, hh, hawait⟩ := hg
    cases advanceCall_move hm with
    | locked slot found free => exact ⟨rfl, hh, by simp⟩
    | sent slot found leased =>
      refine ⟨rfl, hh, fun _ => ?_⟩
      rw [stateOf_setSlot, if_pos rfl]
      have hsame : sessionId = h.sessionId := Option.some.inj (hid.symm.trans hsid)
      rw [hsame]
      exact congrArg some leased
    | refused slot found other => exact openErrPc_point
    | answered err info =>
      cases err with
      | some e => exact openErrPc_point
      | none =>
        cases info with
        | some path =>
          refine ⟨rfl, hh, ?_⟩
          rw [stateOf_unlockCall]
          exact hawait rfl
        | none => exact openErrPc_point
    | crashed | timedOut | cancelled => rfl

theorem retire_point {v : WorkerId} {sid : String} {fresh : Bool} {err : ToolError}
    {stage : RetireStage}
    (hm : advanceRetire cfg s v (.call k sid (.openObserved fresh) err) stage outcome = some m) :
    OpenPoint m.mem k sessionId m.point := by
  have hdone : ∀ r : Pool, OpenPoint (retireDone r v (.call k sid (.openObserved fresh) err)).mem k
      sessionId (retireDone r v (.call k sid (.openObserved fresh) err)).point :=
    fun r => openErrPc_point
  cases advanceRetire_move hm with
  | enough satisfied => exact hdone s
  | failed id err free => exact hdone _
  | _ => rfl

/- Every await of `open_observed` hands what it knows to the next. -/
theorem OpenPoint.moved (hI : WorkerPool.Inv cfg own w) (hp : w.tasks t = some p)
    (hid : w.mem.idOf k = some sessionId) (hg : OpenPoint w.mem k sessionId p)
    (hm : advance cfg w.mem t outcome p = some m) : OpenPoint m.mem k sessionId m.point := by
  have hgood := hI.good t p hp
  cases p with
  | done exit => cases hm
  | lease j timeout stage =>
    obtain ⟨rfl, hnone⟩ := hg
    exact lease_point hnone hm
  | call j h caller timeout stage =>
    have hj : j = k := by
      cases caller with
      | dispatch tool => exact hg.elim
      | openObserved fresh => exact hg.1
    subst hj
    exact call_point hid hgood.2.2.2 hg hm
  | openStore j h path =>
    obtain ⟨rfl, hh, hs⟩ := hg
    cases advance_moves hm with
    | single outcome move =>
      cases move with
      | stored j h path slot found =>
        refine ⟨h, hh, ?_⟩
        rw [stateOf_setSlot, if_pos rfl, ← hs, stateOf_eq found]
  | takeHandle j save detached =>
    cases advance_moves hm with
    | single outcome move =>
      cases move with
      | nothingTaken j save detached se session free handle => trivial
      | taken j save detached se h session free handle => trivial
  | release h save stage =>
    rcases advance_goes hm with hf | ⟨exit, he, hends⟩
    · generalize m.point = q at hf
      cases hf <;> trivial
    · rw [he]
      cases hends with
      | ok pc other | err pc e other => exact absurd rfl (other h save stage)
      | released => trivial
  | retire v ctx stage =>
    cases ctx with
    | call j sid caller err =>
      cases caller with
      | dispatch tool => exact hg.elim
      | openObserved fresh =>
        have hj : j = k := hg
        subst hj
        exact retire_point hm
    | release sid save err =>
      rcases advance_goes hm with hf | ⟨exit, he, hends⟩
      · generalize m.point = q at hf
        cases hf <;> trivial
      · cases hends with
        | ok pc other other' | err pc e other other' =>
          exact absurd rfl (other' v sid save err stage)
    | guard | dispatch | reservation | shutdown => exact hg.elim
  | warm | dispatchHandle | dispatchClear | reap | unreserve => exact hg.elim

/- The request was sent, or answered with a database. -/
def sentRequest : Pc → Bool
  | .call _ _ _ _ .await | .openStore .. | .done .ok => true
  | _ => false

/- What an await of `open_observed` knows, the steps of the other tasks leave alone. -/
theorem OpenPoint.kept {s' : Pool} (hg : OpenPoint s k sessionId p)
    (hhandle : s'.handleOf k = s.handleOf k)
    (hleased : sentRequest p = true → ∀ h, s.handleOf k = some h →
      s.stateOf h.workerId = some (.leased sessionId) →
        s'.stateOf h.workerId = some (.leased sessionId)) : OpenPoint s' k sessionId p := by
  cases p with
  | lease j timeout stage => exact ⟨hg.1, hhandle.trans hg.2⟩
  | call j h caller timeout stage =>
    cases caller with
    | dispatch tool => exact hg.elim
    | openObserved fresh =>
      obtain ⟨hj, hh, hawait⟩ := hg
      refine ⟨hj, hhandle.trans hh, fun hstage => ?_⟩
      subst hstage
      exact hleased rfl h hh (hawait rfl)
  | openStore j h path =>
    obtain ⟨hj, hh, hs⟩ := hg
    exact ⟨hj, hhandle.trans hh, hleased rfl h hh hs⟩
  | done exit =>
    cases exit with
    | ok =>
      obtain ⟨h, hh, hs⟩ := hg
      exact ⟨h, hhandle.trans hh, hleased rfl h hh hs⟩
    | err | released | abandoned => trivial
  | takeHandle j save detached => cases detached <;> exact hg
  | release => trivial
  | retire v ctx stage =>
    cases ctx with
    | call j sid caller err => cases caller <;> exact hg
    | release => trivial
    | guard | dispatch | reservation | shutdown => exact hg
  | warm | dispatchHandle | dispatchClear | reap | unreserve => exact hg

/-! ### The futures of the warmup -/

/- An answer after which `dispatch` keeps the worker. -/
def keepsWorker : Outcome → Bool
  | .answer (.result (some err) _) => !childToolErrorRetiresWorker err
  | .answer (.transport _) | .answer .timeout | .cancelled => false
  | _ => true

/- What the opening knows while a probe waits at `p`. -/
def ProbePoint (s : Pool) (k : SessionRef) (sessionId : String) : Pc → Prop
  | .dispatchHandle j _ _ => j = k
  | .call j h (.dispatch _) _ _ => j = k ∧ h.sessionId = sessionId ∧ s.handleOf k = some h
  | .done _ => True
  | _ => False

theorem ProbePoint.kept {s' : Pool} (hg : ProbePoint s k sessionId p)
    (hhandle : s'.handleOf k = s.handleOf k) : ProbePoint s' k sessionId p := by
  cases p with
  | call j h caller timeout stage =>
    cases caller with
    | dispatch tool => exact ⟨hg.1, hg.2.1, hhandle.trans hg.2.2⟩
    | openObserved fresh => exact hg.elim
  | _ => exact hg

theorem callOk_point {tool : String} {err : Option ToolError} {info : Option String}
    (hkeeps : keepsWorker (.answer (.result err info)) = true) :
    ∃ exit, callOkPc k h (.dispatch tool) err info = .done exit := by
  unfold callOkPc
  cases err with
  | none => exact ⟨_, rfl⟩
  | some e =>
    have hnot : childToolErrorRetiresWorker e = false := by simpa [keepsWorker] using hkeeps
    simp only [hnot]
    exact ⟨_, rfl⟩

/- A probe that keeps the worker writes neither the handle nor the state of a slot. -/
theorem ProbePoint.moved (hI : WorkerPool.Inv cfg own w) (hp : w.tasks t = some p)
    (hid : w.mem.idOf k = some sessionId) (husable : Usable w.mem k sessionId)
    (hg : ProbePoint w.mem k sessionId p) (hkeeps : keepsWorker outcome = true)
    (hm : advance cfg w.mem t outcome p = some m) :
    ProbePoint m.mem k sessionId m.point ∧ Usable m.mem k sessionId := by
  obtain ⟨h₀, hh₀, hs₀⟩ := husable
  have hid₀ : h₀.sessionId = sessionId := by
    have hboth := (hI.global.handle_ok k h₀ hh₀).2.1
    rw [hid] at hboth
    exact (Option.some.inj hboth).symm
  cases p with
  | done exit => cases hm
  | dispatchHandle j tool timeout =>
    have hj : j = k := hg
    subst hj
    cases advance_moves hm with
    | single outcome move =>
      cases move with
      | notOpen j tool timeout se session free handle =>
        rw [handleOf_eq session, handle] at hh₀
        cases hh₀
      | dispatched j tool timeout se h session free handle =>
        have hsame : h = h₀ := by
          rw [handleOf_eq session, handle] at hh₀
          exact Option.some.inj hh₀
        rw [hsame]
        exact ⟨⟨rfl, hid₀, hh₀⟩, h₀, hh₀, hs₀⟩
  | call j h caller timeout stage =>
    cases caller with
    | openObserved fresh => exact hg.elim
    | dispatch tool =>
      obtain ⟨rfl, hsid, hh⟩ := hg
      have hsame : h = h₀ := Option.some.inj (hh.symm.trans hh₀)
      subst hsame
      cases advanceCall_move hm with
      | locked slot found free =>
        refine ⟨⟨rfl, hsid, hh⟩, h, hh, ?_⟩
        rw [stateOf_setSlot, if_pos rfl, ← hs₀, stateOf_eq found]
      | sent slot found leased =>
        refine ⟨⟨rfl, hsid, hh⟩, h, hh, ?_⟩
        rw [stateOf_setSlot, if_pos rfl, ← hs₀, stateOf_eq found]
      | refused slot found other =>
        rw [stateOf_eq found] at hs₀
        rw [hsid] at other
        exact absurd (Option.some.inj hs₀) other
      | answered err info =>
        obtain ⟨exit, hexit⟩ := callOk_point (k := j) (h := h) hkeeps
        refine ⟨?_, h, hh, ?_⟩
        · rw [hexit]
          trivial
        · rw [stateOf_unlockCall]
          exact hs₀
      | crashed | timedOut | cancelled => cases hkeeps
  | _ => exact hg.elim

/-! ### The opening -/

def StageOk (w : World) (k : SessionRef) (sessionId : String) : Stage → Prop
  | .opening t => ∃ p, w.tasks t = some p ∧ OpenPoint w.mem k sessionId p
  | .warmup t _ => (∃ p, w.tasks t = some p ∧ ProbePoint w.mem k sessionId p) ∧
      Usable w.mem k sessionId
  | .insert => Usable w.mem k sessionId

/- Only the awaited future touches the session of an opening. -/
structure AttemptOk (w : World) (o : Attempt) : Prop where
  id : w.mem.idOf o.session = some o.sessionId
  alone : ∀ u p, w.tasks u = some p → touches p = some o.session → o.stage.awaits = some u
  stage : StageOk w o.session o.sessionId o.stage

structure Inv (cfg : Config) (x : Supervisor) : Prop where
  pool : ∃ own, WorkerPool.Inv cfg own x.pool
  touched : Touched x.pool
  attempt : ∀ o, x.opening = some o → AttemptOk x.pool o

/- From the moment its request is sent, the opening counts on the lease. -/
def countsOnLease (w : World) : Stage → Bool
  | .opening t => (w.tasks t).any sentRequest
  | _ => true

/- The pool action spares the lease of the opening: it ends no probe in a way that retires
the worker, and it is not another task's `mark_dead` of that worker. -/
def sparesLease (w : World) (o : Attempt) : WorkerPool.Act → Bool
  | .advance t outcome =>
    (match o.stage with
      | .warmup u _ => u != t || keepsWorker outcome
      | _ => true) &&
    (match w.tasks t with
      | some (.retire v _ .take) =>
        !countsOnLease w o.stage || w.mem.workerOf o.session != some v
      | _ => true)
  | _ => true

theorem sparesLease_probe {rest : List String} (hS : sparesLease w o (.advance t outcome) = true)
    (hst : o.stage = .warmup t rest) : keepsWorker outcome = true := by
  simp only [sparesLease, hst, Bool.and_eq_true] at hS
  simpa using hS.1

theorem sparesLease_retire {v : WorkerId} {ctx : RetireCtx}
    (hS : sparesLease w o (.advance t outcome) = true)
    (ht : w.tasks t = some (.retire v ctx .take)) (hcounts : countsOnLease w o.stage = true) :
    w.mem.workerOf o.session ≠ some v := by
  simp only [sparesLease, ht, hcounts, Bool.and_eq_true] at hS
  simpa using hS.2

theorem usable_kept (hI : WorkerPool.Inv cfg own w) (hS : sparesLease w o a = true)
    (hcounts : countsOnLease w o.stage = true) (hstep : WorkerPool.step cfg w a = some w')
    (hh : w.mem.handleOf o.session = some h)
    (hs : w.mem.stateOf h.workerId = some (.leased sessionId)) :
    w'.mem.stateOf h.workerId = some (.leased sessionId) := by
  apply leased_kept hI hstep hh hs
  intro u outcome ctx ha hu
  have hworker : w.mem.workerOf o.session = some h.workerId := by
    unfold Pool.workerOf
    rw [hh]
    rfl
  subst ha
  exact sparesLease_retire hS hu hcounts hworker

/- Pool actions of others, and of the awaited future. -/
theorem attempt_step (hI : WorkerPool.Inv cfg own w) (hA : AttemptOk w o)
    (hS : sparesLease w o a = true)
    (hpriv : ¬ o.Private a) (hstep : WorkerPool.step cfg w a = some w') : AttemptOk w' o := by
  obtain ⟨own', -, hages, -⟩ := step_inv hI hstep
  have halone : ∀ u q, w'.tasks u = some q → touches q = some o.session →
      o.stage.awaits = some u := by
    intro u q hq hk
    rcases touches_before hstep hq hk with ⟨p, hp, hpk⟩ | ⟨-, -, hstart⟩
    · exact hA.alone u p hp hpk
    · rcases hstart with ⟨secs, rfl⟩ | ⟨tool, secs, rfl⟩ | ⟨save, rfl⟩ | rfl <;>
        exact absurd rfl hpriv
  -- a task the opening does not await leaves the handle alone
  have hhandle : (∀ t, o.stage.awaits = some t → ¬ a.Moves t) →
      w'.mem.handleOf o.session = w.mem.handleOf o.session := by
    intro hnot
    apply handle_kept hI hstep
    intro u outcome p ha hp hk
    exact hnot u (hA.alone u p hp hk) (.inr ⟨outcome, ha⟩)
  have hmoved : ∀ t, o.stage.awaits = some t → a.Moves t → ∃ outcome, a = .advance t outcome := by
    intro t ht hmoves
    rcases hmoves with rfl | hadvance
    · exact absurd ht hpriv
    · exact hadvance
  refine ⟨hages.id _ _ hA.id, halone, ?_⟩
  have hstage := hA.stage
  cases hst : o.stage with
  | opening t =>
    rw [hst] at hstage
    obtain ⟨p, hp, hg⟩ := hstage
    have hawaits : o.stage.awaits = some t := by rw [hst]; rfl
    by_cases hmoves : a.Moves t
    · obtain ⟨outcome, rfl⟩ := hmoved t hawaits hmoves
      obtain ⟨m, hm, rfl⟩ := step_advance_at hp hstep
      exact ⟨m.point, Tasks.resume_self m (hI.lt_next hp), hg.moved hI hp hA.id hm⟩
    · have hother : ∀ u, o.stage.awaits = some u → ¬ a.Moves u := by
        intro u hu
        rw [hawaits] at hu
        cases hu
        exact hmoves
      refine ⟨p, step_kept hI hstep hp hmoves, hg.kept (hhandle hother) ?_⟩
      intro hsent h hh hs
      have hcounts : countsOnLease w o.stage = true := by
        rw [hst, countsOnLease, hp]
        exact hsent
      exact usable_kept hI hS hcounts hstep hh hs
  | warmup t rest =>
    rw [hst] at hstage
    obtain ⟨⟨p, hp, hg⟩, husable⟩ := hstage
    have hawaits : o.stage.awaits = some t := by rw [hst]; rfl
    by_cases hmoves : a.Moves t
    · obtain ⟨outcome, rfl⟩ := hmoved t hawaits hmoves
      obtain ⟨m, hm, rfl⟩ := step_advance_at hp hstep
      have hkeeps := sparesLease_probe hS hst
      obtain ⟨hnext, husable'⟩ := hg.moved hI hp hA.id husable hkeeps hm
      exact ⟨⟨m.point, Tasks.resume_self m (hI.lt_next hp), hnext⟩, husable'⟩
    · have hother : ∀ u, o.stage.awaits = some u → ¬ a.Moves u := by
        intro u hu
        rw [hawaits] at hu
        cases hu
        exact hmoves
      have hcounts : countsOnLease w o.stage = true := by rw [hst]; rfl
      obtain ⟨h, hh, hs⟩ := husable
      exact ⟨⟨p, step_kept hI hstep hp hmoves, hg.kept (hhandle hother)⟩, h,
        (hhandle hother).trans hh, usable_kept hI hS hcounts hstep hh hs⟩
  | insert =>
    rw [hst] at hstage
    have hother : ∀ u, o.stage.awaits = some u → ¬ a.Moves u := by
      intro u hu
      rw [hst] at hu
      cases hu
    have hcounts : countsOnLease w o.stage = true := by rw [hst]; rfl
    obtain ⟨h, hh, hs⟩ := hstage
    exact ⟨h, (hhandle hother).trans hh, usable_kept hI hS hcounts hstep hh hs⟩

/-! ### Every step of the supervisor -/

def Spares (x : Supervisor) : Act → Prop
  | .pool a => ∀ o ∈ x.opening, sparesLease x.pool o a = true
  | _ => True

instance (x : Supervisor) : ∀ a, Decidable (Spares x a)
  | .pool a => inferInstanceAs (Decidable (∀ o ∈ x.opening, sparesLease x.pool o a = true))
  | .begin .. | .resume | .drop => isTrue trivial

section Steps
variable {x x' : Supervisor}

theorem pool_inv (hI : Inv cfg x) (hstep : WorkerPool.step cfg x.pool a = some w) :
    (∃ own, WorkerPool.Inv cfg own w) ∧ Touched w := by
  obtain ⟨own, hown⟩ := hI.pool
  obtain ⟨own', hown', -⟩ := step_inv hown hstep
  exact ⟨⟨own', hown'⟩, touched_step hI.touched hown hstep⟩

theorem start_tasks {pc : Pc} (hstep : WorkerPool.start w k pc = some w')
    (hq : w'.tasks u = some q) :
    w.tasks u = some q ∨ (u = w.next ∧ q = pc) := by
  rw [start_mem hstep] at hq
  rcases Tasks.spawn_tasks hq with hold | ⟨i, rfl, hi⟩
  · exact .inl hold
  · have hzero : i = 0 := by
      have hlt : i < [pc].length := (List.getElem?_eq_some_iff.mp hi).1
      simpa using hlt
    subst hzero
    exact .inr ⟨rfl, (Option.some.inj hi).symm⟩

theorem begin_inv {path : String} {buildCaches initHexrays : Bool} (hI : Inv cfg x)
    (hstep : step cfg x (.begin path sessionId buildCaches initHexrays) = some x') :
    Inv cfg x' := by
  simp only [step] at hstep
  split at hstep
  · cases hstep
  · obtain ⟨made, hmade, hrest⟩ := Option.bind_eq_some_iff.mp hstep
    obtain ⟨pool, hopen, rfl⟩ := Option.map_eq_some_iff.mp hrest
    obtain ⟨own, hown⟩ := hI.pool
    have hfree : x.pool.mem.sessions x.pool.mem.nextSession = none := by
      by_contra hne
      exact absurd (hown.global.session_lt _ hne) (Nat.lt_irrefl _)
    have huntouched : ∀ u p, x.pool.tasks u = some p →
        touches p ≠ some x.pool.mem.nextSession := by
      intro u p hp hk
      apply hI.touched u p _ hp hk
      unfold Pool.idOf
      rw [hfree]
      rfl
    have hpool := pool_inv hI hmade
    obtain ⟨⟨own', hown'⟩, htouched⟩ := hpool
    obtain ⟨own'', hown'', -⟩ := step_inv hown' hopen
    have hmem : pool.mem = made.mem := by rw [start_mem hopen]; rfl
    simp only [WorkerPool.step] at hmade
    split at hmade
    · cases hmade
      refine ⟨⟨own'', hown''⟩, touched_step htouched hown' hopen, ?_⟩
      intro o ho
      cases ho
      refine ⟨?_, ?_, ?_⟩
      · rw [hmem]
        exact idOf_setSession.trans (if_pos rfl)
      · intro u q hq hk
        rcases start_tasks hopen hq with hold | ⟨rfl, -⟩
        · exact absurd hk (huntouched u q hold)
        · rfl
      · refine ⟨.lease x.pool.mem.nextSession (cfg.opTimeout (some 600)) .handle, ?_, rfl, ?_⟩
        · rw [start_mem hopen]
          exact Tasks.spawn_new (i := 0) rfl
        · rw [hmem]
          exact handleOf_setSession.trans (if_pos rfl)
    · cases hmade

theorem nextProbe_inv {rest : List String} (hI : Inv cfg x)
    (hid : x.pool.mem.idOf o.session = some o.sessionId)
    (hfree : ∀ u p, x.pool.tasks u = some p → touches p ≠ some o.session)
    (husable : Usable x.pool.mem o.session o.sessionId)
    (hstep : nextProbe cfg x o rest = some x') : Inv cfg x' := by
  cases rest with
  | nil =>
    cases hstep
    refine ⟨hI.pool, hI.touched, ?_⟩
    intro o' ho
    cases ho
    exact ⟨hid, fun u p hp hk => absurd hk (hfree u p hp), husable⟩
  | cons tool rest =>
    obtain ⟨pool, hcall, rfl⟩ := Option.map_eq_some_iff.mp hstep
    obtain ⟨hpool, htouched⟩ := pool_inv hI hcall
    have hmem : pool.mem = x.pool.mem := by rw [start_mem hcall]; rfl
    refine ⟨hpool, htouched, ?_⟩
    intro o' ho
    cases ho
    refine ⟨?_, ?_, ?_, ?_⟩
    · rw [hmem]
      exact hid
    · intro u q hq hk
      rcases start_tasks hcall hq with hold | ⟨rfl, -⟩
      · exact absurd hk (hfree u q hold)
      · rfl
    · refine ⟨.dispatchHandle o.session tool (cfg.opTimeout none), ?_, rfl⟩
      rw [start_mem hcall]
      exact Tasks.spawn_new (i := 0) rfl
    · rw [hmem]
      exact husable

theorem giveUp_inv {pool : World} (hpool : ∃ own, WorkerPool.Inv cfg own pool)
    (htouched : Touched pool) (hstep : giveUp cfg x pool o = some x') : Inv cfg x' := by
  obtain ⟨pool', hdrop, rfl⟩ := Option.map_eq_some_iff.mp hstep
  obtain ⟨own, hown⟩ := hpool
  obtain ⟨own', hown', -⟩ := step_inv hown hdrop
  refine ⟨⟨own', hown'⟩, touched_step htouched hown hdrop, ?_⟩
  intro o' ho
  cases ho

/- When the awaited future has ended, no task touches the session. -/
theorem untouched_when_done {exit : Exit} (hA : AttemptOk w o) (ht : o.stage.awaits = some t)
    (hdone : w.tasks t = some (.done exit)) :
    ∀ u p, w.tasks u = some p → touches p ≠ some o.session := by
  intro u p hp hk
  have hu := hA.alone u p hp hk
  rw [ht] at hu
  cases hu
  rw [hdone] at hp
  cases hp
  cases hk

theorem resume_inv (hI : Inv cfg x) (ho : x.opening = some o)
    (hstep : resume cfg x o = some x') : Inv cfg x' := by
  have hA := hI.attempt o ho
  have hstage := hA.stage
  unfold resume at hstep
  split at hstep
  · rename_i t hst
    rw [hst] at hstage
    obtain ⟨p, hp, hg⟩ := hstage
    have hawaits : o.stage.awaits = some t := by rw [hst]; rfl
    split at hstep
    · rename_i hdone
      rw [hp] at hdone
      cases hdone
      exact nextProbe_inv hI hA.id (untouched_when_done hA hawaits hp) hg hstep
    · exact giveUp_inv hI.pool hI.touched hstep
    · cases hstep
  · rename_i t rest hst
    rw [hst] at hstage
    have hawaits : o.stage.awaits = some t := by rw [hst]; rfl
    split at hstep
    · rename_i hdone
      exact nextProbe_inv hI hA.id (untouched_when_done hA hawaits hdone) hstage.2 hstep
    · cases hstep
  · cases hstep
    exact ⟨hI.pool, hI.touched, fun o' ho' => by cases ho'⟩

theorem drop_inv (hI : Inv cfg x) (hstep : dropOpening cfg x o = some x') : Inv cfg x' := by
  unfold dropOpening at hstep
  cases hdrop : o.stage.awaits.bind fun t => WorkerPool.step cfg x.pool (.drop t) with
  | none =>
    rw [hdrop] at hstep
    exact giveUp_inv hI.pool hI.touched hstep
  | some pool =>
    rw [hdrop] at hstep
    obtain ⟨t, -, hpool⟩ := Option.bind_eq_some_iff.mp hdrop
    obtain ⟨hinv, htouched⟩ := pool_inv hI hpool
    exact giveUp_inv hinv htouched hstep

theorem step_keeps {act : Act} (hI : Inv cfg x) (hS : Spares x act)
    (hstep : step cfg x act = some x') : Inv cfg x' := by
  cases act with
  | pool a =>
    simp only [step] at hstep
    split at hstep
    · cases hstep
    · rename_i hpriv
      obtain ⟨pool, hpool, rfl⟩ := Option.map_eq_some_iff.mp hstep
      obtain ⟨hinv, htouched⟩ := pool_inv hI hpool
      refine ⟨hinv, htouched, ?_⟩
      intro o ho
      obtain ⟨own, hown⟩ := hI.pool
      have hnot : ¬ o.Private a := fun h => hpriv ⟨o, ho, h⟩
      exact attempt_step hown (hI.attempt o ho) (hS o ho) hnot hpool
  | begin path sessionId buildCaches initHexrays => exact begin_inv hI hstep
  | resume =>
    obtain ⟨o, ho, hresume⟩ := Option.bind_eq_some_iff.mp hstep
    exact resume_inv hI ho hresume
  | drop =>
    obtain ⟨o, ho, hdrop⟩ := Option.bind_eq_some_iff.mp hstep
    exact drop_inv hI hdrop

theorem start_inv (cfg : Config) : Inv cfg (start cfg) where
  pool := ⟨_, init_inv cfg⟩
  touched u p k hp hk := by
    have hinit : (WorkerPool.init cfg).tasks u = some p := hp
    simp only [WorkerPool.init] at hinit
    split at hinit <;> cases hinit
    cases hk
  attempt o ho := by cases ho

/-- In a run that spares the lease of every opening, the session that an `open` inserts
holds a worker leased to it when it is inserted. -/
theorem inserted_session_usable {as : List Act}
    (hrun : Runs.run (step cfg) (start cfg) as = some x)
    (hS : Runs.Along (step cfg) Spares (start cfg) as) (ho : x.opening = some o)
    (hinsert : o.stage = .insert) (hstep : step cfg x .resume = some x') :
    x'.byId o.sessionId = some o.session ∧ x'.byPath o.path = some o.sessionId ∧
      Usable x'.pool.mem o.session o.sessionId := by
  have hI := Runs.run_inv_along (Inv cfg) (fun _ _ _ hI hS hstep => step_keeps hI hS hstep)
    (start_inv cfg) hS hrun
  have hstage := (hI.attempt o ho).stage
  rw [hinsert] at hstage
  simp only [step, ho, Option.bind_some, resume, hinsert] at hstep
  cases hstep
  exact ⟨Function.update_self .., Function.update_self .., hstage⟩

/- Both probes run and one of them fails as a tool; the worker stays. -/
def warmedUp : List Act :=
  [.pool (go 0), .begin "a.bin" "A" true true, .pool (go 1), .pool (go 1),
    .pool (.advance 1 .spawned), .pool (go 1), .pool (go 1), .pool (go 1),
    .pool (.advance 1 (.answer (.result none (some "a.i64")))), .pool (go 1), .resume,
    .pool (go 2), .pool (go 2), .pool (go 2),
    .pool (.advance 2 (.answer (.result none none))), .resume,
    .pool (go 3), .pool (go 3), .pool (go 3),
    .pool (.advance 3 (.answer (.result (some (.idaError "no hexrays")) none))), .resume]

theorem inserted_session_usable_warmed_up :
    ∃ x x' : Supervisor, Runs.run (step ⟨1, 0, 0, 600⟩) (start ⟨1, 0, 0, 600⟩) warmedUp = some x ∧
      step ⟨1, 0, 0, 600⟩ x .resume = some x' ∧ x'.byId "A" = some 0 ∧
      x'.byPath "a.bin" = some "A" ∧ Usable x'.pool.mem 0 "A" := by
  have hrun : (Runs.run (step ⟨1, 0, 0, 600⟩) (start ⟨1, 0, 0, 600⟩) warmedUp).any (fun x =>
      decide (x.opening = some ⟨"a.bin", "A", 0, ["strings", "decompile"], .insert⟩)) = true := by
    decide +kernel
  obtain ⟨x, hx, ho⟩ := (Option.any_eq_true _ _).mp hrun
  have ho := of_decide_eq_true ho
  have hstep : ∃ x', step ⟨1, 0, 0, 600⟩ x .resume = some x' := by
    simp only [step, ho]
    exact ⟨_, rfl⟩
  obtain ⟨x', hx'⟩ := hstep
  exact ⟨x, x', hx, hx', inserted_session_usable hx (by decide +kernel) ho rfl hx'⟩

/- The connection to the worker breaks in the first probe: the pool kills the worker and
clears the handle, and `open` inserts the session. -/
def lostInWarmup : List Act :=
  [.pool (go 0), .begin "a.bin" "A" true false, .pool (go 1), .pool (go 1),
    .pool (.advance 1 .spawned), .pool (go 1), .pool (go 1), .pool (go 1),
    .pool (.advance 1 (.answer (.result none (some "a.i64")))), .pool (go 1), .resume,
    .pool (go 2), .pool (go 2), .pool (go 2),
    .pool (.advance 2 (.answer (.transport (.remoteProtocol "strings call failed: eof")))),
    .pool (go 2), .pool (go 2), .pool (go 2), .pool (go 2), .pool (go 2), .resume, .resume]

theorem inserted_without_worker :
    ∃ x : Supervisor, Runs.run (step ⟨1, 0, 0, 600⟩) (start ⟨1, 0, 0, 600⟩) lostInWarmup = some x ∧
      x.byId "A" = some 0 ∧ x.byPath "a.bin" = some "A" ∧ ¬ Usable x.pool.mem 0 "A" := by
  have hrun : (Runs.run (step ⟨1, 0, 0, 600⟩) (start ⟨1, 0, 0, 600⟩) lostInWarmup).any (fun x =>
      decide (x.byId "A" = some 0 ∧ x.byPath "a.bin" = some "A" ∧
        x.pool.mem.handleOf 0 = none)) = true := by
    decide +kernel
  obtain ⟨x, hx, hend⟩ := (Option.any_eq_true _ _).mp hrun
  obtain ⟨hid, hpath, hnone⟩ := of_decide_eq_true hend
  refine ⟨x, hx, hid, hpath, ?_⟩
  rintro ⟨h, hh, -⟩
  rw [hnone] at hh
  cases hh

end Steps

end IdaHeadless.Opening
