import IdaHeadless.WorkerPool.Flow

/-!
# No recycled worker with an unknown database

`release_with_save` gives a slot back as idle only after `close_idb` answered
without error; on every other way out the slot is dead. A release that retires
the slot itself, or whose dropped future leaves that to its guard, also takes it
out of the children. A release that finds the slot already dead leaves that to
the retirement that killed it.
-/

namespace IdaHeadless.WorkerPool

/- The awaits and exits of one `release_with_save`. -/
inductive Releasing (h : Handle) (save : Bool) : Pc → Prop where
  | release (stage) : Releasing h save (.release h save stage)
  | retire (err stage) : Releasing h save (.retire h.workerId (.release h.sessionId save err) stage)
  | released (exit) : Releasing h save (.done (.released h.workerId exit))
  | abandoned : Releasing h save (.done (.abandoned h.workerId))

/- The release has set the slot idle. -/
def Pc.recycled : Pc → Bool
  | .release _ _ (.idleCheck .recycled) | .done (.released _ .recycled) => true
  | _ => false

/- The task whose dropped future left this guard behind. -/
def Pc.guardOf : Pc → Option TaskId
  | .retire _ (.guard origin _) _ => some origin
  | _ => none

/- An abandoned release has a guard at work, or its slot is retired. -/
def Guarded (x : World) : Prop :=
  ∀ r w, x.tasks r = some (.done (.abandoned w)) →
    (∃ v sessionId stage, x.tasks v = some (.retire w (.guard r sessionId) stage)) ∨ Retired x.mem w

variable {cfg : Config} {own : Own} {s : Pool} {x x' u : World} {a : Act} {t r v : TaskId}
  {o : Outcome} {m : Move} {h : Handle} {save : Bool} {p q : Pc} {w : WorkerId}

/-! ### A release stays a release -/

theorem Releasing.advance (hp : Releasing h save p) (hm : advance cfg s t o p = some m) :
    Releasing h save m.point := by
  rcases advance_goes hm with hf | ⟨exit, he, hend⟩
  · cases hp with
    | release stage =>
      generalize hq : m.point = q at hf ⊢
      cases hf <;> first | exact .release _ | exact .retire _ _
    | retire err stage =>
      generalize hq : m.point = q at hf ⊢
      cases hf <;> first | exact .release _ | exact .retire _ _
    | released exit | abandoned => cases hm
  · rw [he]
    cases hp with
    | release stage =>
      cases hend with
      | ok _ other => exact absurd rfl (other h save stage)
      | err _ e other => exact absurd rfl (other h save stage)
      | released _ _ exit => exact .released exit
    | retire err stage =>
      cases hend with
      | ok _ _ other => exact absurd rfl (other _ _ _ _ _)
      | err _ _ _ other => exact absurd rfl (other _ _ _ _ _)
    | released exit | abandoned => cases hm

theorem Releasing.drop (hp : Releasing h save p) (hm : dropTask s t p = some m) :
    Releasing h save m.point := by
  cases hp with
  | release stage =>
    cases stage with
    | lock | child | close | final =>
      cases hm
      exact .abandoned
    | idleCheck exit =>
      cases hm
      exact .released exit
  | retire err stage =>
    cases hm
    exact .abandoned
  | released exit | abandoned => cases hm

theorem releasing_step (hI : Inv cfg own x) (hr : ∃ p, x.tasks r = some p ∧ Releasing h save p)
    (hstep : step cfg x a = some x') : ∃ p, x'.tasks r = some p ∧ Releasing h save p := by
  obtain ⟨p, hp, hR⟩ := hr
  by_cases hmoves : a.Moves r
  · rcases hmoves with rfl | ⟨o, rfl⟩
    · obtain ⟨m, hm, rfl⟩ := step_drop_at hp hstep
      exact ⟨_, Tasks.resume_self m (hI.lt_next hp), hR.drop hm⟩
    · obtain ⟨m, hm, rfl⟩ := step_advance_at hp hstep
      exact ⟨_, Tasks.resume_self m (hI.lt_next hp), hR.advance hm⟩
  · exact ⟨p, step_kept hI hstep hp hmoves, hR⟩

theorem releasing_run {as : List Act} (hI : ∃ own, Inv cfg own u)
    (hr : ∃ p, u.tasks r = some p ∧ Releasing h save p)
    (hrun : Runs.run (step cfg) u as = some x) : ∃ p, x.tasks r = some p ∧ Releasing h save p := by
  refine run_pool_keeps (P := fun y => ∃ p, y.tasks r = some p ∧ Releasing h save p) ?_ hI hr hrun
  intro own y b y' hy hp hstep
  exact releasing_step hy hp hstep

/- Until a release has recycled its slot, the slot is not idle. -/
theorem Releasing.not_idle (hp : Releasing h save p) (hg : Good cfg own s r p)
    (hno : p.recycled = false) : s.stateOf h.workerId ≠ some .idle := by
  have hor : ∀ y, y ≠ .idle → OrDead s h.workerId y → s.stateOf h.workerId ≠ some .idle := by
    intro y hy hd he
    rcases hd with hd | hd <;> rw [he] at hd <;> cases hd
    exact hy rfl
  have hdead : s.stateOf h.workerId = some .dead → s.stateOf h.workerId ≠ some .idle :=
    fun hd => hor .dead (by simp) (.inl hd)
  cases hp with
  | release stage =>
    cases stage with
    | lock => exact hor _ (by simp) hg.2.2.2
    | child | close | final => exact hor _ (by simp) hg.2.2.2.2
    | idleCheck exit =>
      cases exit with
      | recycled => cases hno
      | foundDead => exact hdead hg.2.2
      | retired err => exact hdead hg.2.2.1
  | retire err stage => exact hor _ (by simp) hg.2.2.1.2.2
  | released exit =>
    cases exit with
    | recycled => cases hno
    | foundDead => exact hdead hg
    | retired err => exact hdead hg.1
  | abandoned =>
    obtain ⟨-, y, hy, hd⟩ := hg
    exact hor y hy hd

/-! ### The guard of an abandoned release -/

/- The task of a guard goes on until its slot is retired. -/
theorem guard_advance {origin : TaskId} {sessionId : String} {stage : RetireStage}
    (hg : Good cfg own s t (.retire w (.guard origin sessionId) stage))
    (hm : advanceRetire cfg s w (.guard origin sessionId) stage o = some m) :
    (∃ stage', m.point = .retire w (.guard origin sessionId) stage') ∨ Retired s w := by
  cases advanceRetire_move hm with
  | wasDead | killed | forgotten | forgottenDead => exact .inl ⟨_, rfl⟩
  | finished | enough | reserves => exact .inr hg.2.2.2
  | spawned | spawnFailed | installed | failed => exact .inr hg.2.2.2.1

theorem guarded_step (hI : Inv cfg own x) (hG : Guarded x) (hstep : step cfg x a = some x') :
    Guarded x' := by
  obtain ⟨own', hI', hages, -⟩ := step_inv hI hstep
  intro r w hr
  cases step_task hstep hr with
  | kept before other =>
    rcases hG r w before with ⟨v, sessionId, stage, hv⟩ | hret
    · by_cases hmoves : a.Moves v
      · rcases hmoves with rfl | ⟨o, rfl⟩
        · obtain ⟨m, hm, rfl⟩ := step_drop_at hv hstep
          cases hm
        · obtain ⟨m, hm, rfl⟩ := step_advance_at hv hstep
          rcases guard_advance (hI.good v _ hv) hm with ⟨stage', hpoint⟩ | hret
          · refine .inl ⟨v, sessionId, stage', ?_⟩
            rw [Tasks.resume_self m (hI.lt_next hv), hpoint]
          · exact .inr (hret.stable hages)
      · exact .inl ⟨v, sessionId, stage, step_kept hI hstep hv hmoves⟩
    · exact .inr (hret.stable hages)
  | moved o p m act before move point world =>
    rcases advance_goes move with hf | ⟨exit, he, hend⟩
    · rw [← point] at hf
      cases hf
    · rw [← point] at he
      cases he
      cases hend
  | dropped p m act before move point world =>
    subst world
    left
    cases p with
    | release h save stage =>
      cases stage with
      | lock | child | close | final =>
        cases move
        cases point
        exact ⟨x.next + 0, _, _, Tasks.spawn_new rfl⟩
      | idleCheck exit =>
        cases move
        cases point
    | retire v ctx stage =>
      cases ctx with
      | release sessionId save err =>
        cases move
        cases point
        exact ⟨x.next + 0, _, _, Tasks.spawn_new rfl⟩
      | call | dispatch =>
        cases move
        cases point
      | guard | reservation | shutdown => cases move
    | lease k timeout stage => cases stage <;> cases move <;> cases point
    | call k hd caller timeout stage => cases stage <;> cases move <;> cases point
    | takeHandle k save detached =>
      cases detached <;> cases move
      cases point
    | dispatchHandle | dispatchClear | openStore =>
      cases move
      cases point
    | done | warm | reap | unreserve => cases move
  | started before start =>
    cases start with
    | drops _ _ _ _ left => cases left

theorem guarded_reachable {as : List Act} (hrun : Runs.run (step cfg) (init cfg) as = some x) :
    Guarded x := by
  refine run_pool_keeps (fun own y b y' hy hG hstep => guarded_step hy hG hstep)
    ⟨_, init_inv cfg⟩ ?_ hrun
  intro r w hr
  simp only [init] at hr
  split at hr <;> cases hr

/-! ### How a release came to recycle its slot -/

/- The step that took release `r` to `q`. -/
theorem release_entry {bs : List Act} (hI : ∃ own, Inv cfg own u)
    (hr : ∃ p, u.tasks r = some p ∧ Releasing h save p) (hu : u.tasks r ≠ some q)
    (hx : Runs.run (step cfg) u bs = some x) (hq : x.tasks r = some q) :
    ∃ cs a ds y y' p, bs = cs ++ a :: ds ∧ Runs.run (step cfg) u cs = some y ∧
      step cfg y a = some y' ∧ y.tasks r = some p ∧ Releasing h save p ∧
      ((∃ o m, a = .advance r o ∧ advance cfg y.mem r o p = some m ∧ m.point = q ∧
        y' = y.resume r m) ∨ ∃ m, a = .drop r ∧ dropTask y.mem r p = some m ∧ m.point = q) := by
  obtain ⟨cs, a, ds, y, y', rfl, huy, hstep, hy', hy, hrest⟩ :=
    Runs.run_entry (P := fun y => y.tasks r = some q) hu hx hq
  obtain ⟨p, hp, hR⟩ := releasing_run hI hr huy
  refine ⟨cs, a, ds, y, y', p, rfl, huy, hstep, hp, hR, ?_⟩
  cases step_task hstep hy' with
  | kept before other => exact absurd before hy
  | moved o p' m act before move point world =>
    rw [hp] at before
    cases before
    exact .inl ⟨o, m, act, move, point.symm, world⟩
  | dropped p' m act before move point world =>
    rw [hp] at before
    cases before
    exact .inr ⟨m, act, move, point.symm⟩
  | started before start =>
    obtain ⟨own, hIy⟩ := run_pool_inv hI huy
    exact absurd (hIy.lt_next hp) (Nat.not_lt.mpr before)

/- An await of a release is reached by resuming it. -/
theorem release_advanced {bs : List Act} (hI : ∃ own, Inv cfg own u)
    (hr : ∃ p, u.tasks r = some p ∧ Releasing h save p) (hu : u.tasks r ≠ some q)
    (hx : Runs.run (step cfg) u bs = some x) (hq : x.tasks r = some q)
    (hawait : ∀ exit, q ≠ .done exit) :
    ∃ cs o ds y m p, bs = cs ++ .advance r o :: ds ∧ Runs.run (step cfg) u cs = some y ∧
      y.tasks r = some p ∧ advance cfg y.mem r o p = some m ∧ m.point = q ∧ Flow p q ∧
      step cfg y (.advance r o) = some (y.resume r m) := by
  obtain ⟨cs, a, ds, y, y', p, rfl, hy, hstep, hp, -, hkind⟩ := release_entry hI hr hu hx hq
  rcases hkind with ⟨o, m, rfl, hm, hpoint, rfl⟩ | ⟨m, rfl, hm, hpoint⟩
  · rcases advance_goes hm with hf | ⟨exit, he, -⟩
    · rw [hpoint] at hf
      exact ⟨cs, o, ds, y, m, p, rfl, hy, hp, hm, hpoint, hf, hstep⟩
    · rw [hpoint] at he
      exact absurd he (hawait exit)
  · obtain ⟨exit, he⟩ := dropTask_point hm
    rw [hpoint] at he
    exact absurd he (hawait exit)

/- A release that ended as recycled came from its idle check. -/
theorem recycled_before_end (hR : Releasing h save p)
    (hkind : (∃ o m, a = .advance r o ∧ advance cfg s r o p = some m ∧
      m.point = .done (.released h.workerId .recycled) ∧ x' = x.resume r m) ∨
      ∃ m, a = .drop r ∧ dropTask s r p = some m ∧
        m.point = .done (.released h.workerId .recycled)) :
    p = .release h save (.idleCheck .recycled) := by
  rcases hkind with ⟨o, m, -, hm, hpoint, -⟩ | ⟨m, -, hm, hpoint⟩
  · rcases advance_goes hm with hf | ⟨exit, he, hend⟩
    · rw [hpoint] at hf
      cases hf
    · rw [hpoint] at he
      cases he
      cases hR with
      | release stage => cases hend with | released _ _ exit => rfl
      | retire err stage => cases hend
      | released exit | abandoned => cases hm
  · cases hR with
    | release stage =>
      cases stage <;> cases hm <;> cases hpoint
      rfl
    | retire err stage =>
      cases hm
      cases hpoint
    | released exit | abandoned => cases hm

theorem recycle_writes (hm : advanceRelease s t h save .final o = some m)
    (hpoint : m.point = .release h save (.idleCheck .recycled)) :
    o = .go ∧ ∃ slot, m.mem.slots h.workerId = some slot ∧ slot.state = .idle ∧
      slot.idbPath = none := by
  cases advanceRelease_move hm with
  | diedAfter slot found dead => cases hpoint
  | recycled slot found live =>
    refine ⟨rfl, ⟨.idle, none, s.now, none, slot.sent⟩, ?_, rfl, rfl⟩
    dsimp only
    rw [unlockCall_eq slots_setSlot_self]
    exact slots_setSlot_self

theorem close_answered (hm : advanceRelease s t h save .close o = some m)
    (hpoint : m.point = .release h save .final) :
    ∃ ans, o = .answer ans ∧ closeError ans = none := by
  cases advanceRelease_move hm with
  | closed ans ok => exact ⟨ans, rfl, ok⟩
  | closeFailed ans err failed => cases hpoint

/- `close_idb` answered without error, and then the slot was set idle. -/
theorem recycled_history {bs : List Act} (hI : ∃ own, Inv cfg own u)
    (hr : u.tasks r = some (.release h save .lock)) (hx : Runs.run (step cfg) u bs = some x)
    (hend : x.tasks r = some (.done (.released h.workerId .recycled))) :
    ∃ cs ans ds es y z slot,
      bs = (cs ++ Act.advance r (.answer ans) :: (ds ++ [Act.advance r .go])) ++ es ∧
      closeError ans = none ∧
      Runs.run (step cfg) u cs = some y ∧ y.tasks r = some (.release h save .close) ∧
      Runs.run (step cfg) u (cs ++ Act.advance r (.answer ans) :: (ds ++ [Act.advance r .go])) =
        some z ∧
      z.mem.slots h.workerId = some slot ∧ slot.state = .idle ∧ slot.idbPath = none := by
  have hfam : ∃ p, u.tasks r = some p ∧ Releasing h save p := ⟨_, hr, .release _⟩
  -- back from the end to the idle check, to the second look at the state, to the answer
  obtain ⟨cs₁, a₁, es₁, y₁, y₁', p₁, rfl, hy₁, -, hp₁, hR₁, hkind₁⟩ :=
    release_entry hI hfam (by rw [hr]; simp) hx hend
  cases recycled_before_end hR₁ hkind₁
  obtain ⟨cs₂, o₂, es₂, y₂, m₂, p₂, rfl, hy₂, hp₂, hm₂, hpoint₂, hf₂, hstep₂⟩ :=
    release_advanced hI hfam (by rw [hr]; simp) hy₁ hp₁ (by simp)
  cases hf₂
  obtain ⟨rfl, slot, hslot, hstate, hpath⟩ := recycle_writes hm₂ hpoint₂
  obtain ⟨cs₃, o₃, es₃, y₃, m₃, p₃, rfl, hy₃, hp₃, hm₃, hpoint₃, hf₃, -⟩ :=
    release_advanced hI hfam (by rw [hr]; simp) hy₂ hp₂ (by simp)
  cases hf₃
  obtain ⟨ans, rfl, hok⟩ := close_answered hm₃ hpoint₃
  refine ⟨cs₃, ans, es₃, es₂ ++ a₁ :: es₁, y₃, y₂.resume r m₂, slot, by simp, hok, hy₃, hp₃, ?_,
    hslot, hstate, hpath⟩
  have hlast :
      Runs.run (step cfg) u ((cs₃ ++ .advance r (.answer ans) :: es₃) ++ [.advance r .go]) =
      some (y₂.resume r m₂) := Runs.run_snoc_iff.mpr ⟨y₂, hy₂, hstep₂⟩
  rw [List.append_assoc] at hlast
  exact hlast

/-- What a release leaves behind. -/
theorem release_outcome {as bs : List Act} (hu : Runs.run (step cfg) (init cfg) as = some u)
    (hr : u.tasks r = some (.release h save .lock)) (hx : Runs.run (step cfg) u bs = some x) :
    (∀ p, x.tasks r = some p → p.recycled = false → x.mem.stateOf h.workerId ≠ some .idle) ∧
    ∀ exit, x.tasks r = some (.done exit) →
      (∀ v sessionId stage, x.tasks v ≠ some (.retire h.workerId (.guard r sessionId) stage)) →
      (x.mem.stateOf h.workerId = some .dead ∧
        (h.workerId ∉ x.mem.children ∨ exit = .released h.workerId .foundDead)) ∨
      (exit = .released h.workerId .recycled ∧ ∃ cs ans ds es y z slot,
        bs = (cs ++ .advance r (.answer ans) :: (ds ++ [.advance r .go])) ++ es ∧
        closeError ans = none ∧
        Runs.run (step cfg) u cs = some y ∧ y.tasks r = some (.release h save .close) ∧
        Runs.run (step cfg) u (cs ++ .advance r (.answer ans) :: (ds ++ [.advance r .go])) =
          some z ∧
        z.mem.slots h.workerId = some slot ∧ slot.state = .idle ∧ slot.idbPath = none) := by
  have hrun : Runs.run (step cfg) (init cfg) (as ++ bs) = some x :=
    Runs.run_append_iff.mpr ⟨u, hu, hx⟩
  have hIu := reachable_inv ⟨as, hu⟩
  obtain ⟨own, hI⟩ := reachable_inv ⟨as ++ bs, hrun⟩
  obtain ⟨p, hp, hR⟩ := releasing_run hIu ⟨_, hr, .release _⟩ hx
  refine ⟨fun p' hp' hno => ?_, fun exit hend hquiet => ?_⟩
  · rw [hp] at hp'
    cases hp'
    exact hR.not_idle (hI.good r p hp) hno
  · rw [hp] at hend
    cases hend
    have hg := hI.good r _ hp
    cases hR with
    | released exit =>
      cases exit with
      | recycled => exact .inr ⟨rfl, recycled_history hIu hr hx hp⟩
      | foundDead => exact .inl ⟨hg, .inr rfl⟩
      | retired err => exact .inl ⟨hg.1, .inl hg.2.2.2⟩
    | abandoned =>
      rcases guarded_reachable hrun r _ hp with ⟨v, sessionId, stage, hv⟩ | hret
      · exact absurd hv (hquiet v sessionId stage)
      · exact .inl ⟨hret.1, .inl hret.2.2.2⟩

/- A release whose `close_idb` is lost with the connection. -/
def closeSent : List Act :=
  [go 0, .newSession "A", .openObserved 0 none, go 1, go 1, .advance 1 .spawned, go 1, go 1, go 1,
    .advance 1 (.answer (.result none (some "p"))), go 1, .closeWithSave 0 true, go 2]
def closeLost : List Act :=
  [go 2, go 2, .advance 2 (.answer (.transport (.remoteProtocol "gone")))]

/- Session A closes while its call waits. The call times out, kills the worker and
is dropped; the release finds the slot dead. -/
def foundDead : List Act :=
  [go 0, .newSession "A", .openObserved 0 none, go 1, go 1, .advance 1 .spawned, go 1, go 1, go 1,
    .advance 1 (.answer (.result none (some "p"))), go 1, .callTool 0 "decompile" none, go 2, go 2,
    go 2, .closeWithSave 0 true, go 3]
def killedMeanwhile : List Act :=
  [.advance 2 (.answer .timeout), go 2, .drop 2, go 3, go 3, go 3]

/- Session A opens again after its release has recycled the slot and before the
release returns. -/
def leasedAgain : List Act :=
  [go 2, go 2, .advance 2 (.answer (.result none none)), go 2, .openObserved 0 none, go 3, go 3,
    go 3, go 2]

theorem found_dead_still_child :
    (∃ u x, Runs.run (step ⟨1, 0, 300, 600⟩) (init ⟨1, 0, 300, 600⟩) foundDead = some u ∧
      u.tasks 3 = some (.release ⟨"A", 0⟩ true .lock) ∧
      Runs.run (step ⟨1, 0, 300, 600⟩) u killedMeanwhile = some x ∧
      x.tasks 3 = some (.done (.released 0 .foundDead)) ∧
      (∀ v < x.next, ∀ sessionId stage, x.tasks v ≠ some (.retire 0 (.guard 3 sessionId) stage)) ∧
      x.mem.stateOf 0 = some .dead ∧ 0 ∈ x.mem.children) ∧
    ∃ u x, Runs.run (step ⟨1, 0, 300, 600⟩) (init ⟨1, 0, 300, 600⟩) closeSent = some u ∧
      u.tasks 2 = some (.release ⟨"A", 0⟩ true .lock) ∧
      Runs.run (step ⟨1, 0, 300, 600⟩) u leasedAgain = some x ∧
      x.tasks 2 = some (.done (.released 0 .recycled)) ∧
      x.mem.stateOf 0 = some (.leased "A") := by
  have hrun : (Runs.run (step ⟨1, 0, 300, 600⟩) (init ⟨1, 0, 300, 600⟩) foundDead).any (fun u =>
      decide (u.tasks 3 = some (.release ⟨"A", 0⟩ true .lock)) &&
      (Runs.run (step ⟨1, 0, 300, 600⟩) u killedMeanwhile).any fun x =>
        decide (x.tasks 3 = some (.done (.released 0 .foundDead)) ∧
          (∀ v < x.next, (x.tasks v).bind Pc.guardOf ≠ some 3) ∧
          x.mem.stateOf 0 = some .dead ∧ 0 ∈ x.mem.children)) = true := by
    decide +kernel
  have hagain : (Runs.run (step ⟨1, 0, 300, 600⟩) (init ⟨1, 0, 300, 600⟩) closeSent).any (fun u =>
      decide (u.tasks 2 = some (.release ⟨"A", 0⟩ true .lock)) &&
      (Runs.run (step ⟨1, 0, 300, 600⟩) u leasedAgain).any fun x =>
        decide (x.tasks 2 = some (.done (.released 0 .recycled)) ∧
          x.mem.stateOf 0 = some (.leased "A"))) = true := by
    decide +kernel
  constructor
  · obtain ⟨u, hu, hp⟩ := (Option.any_eq_true _ _).mp hrun
    obtain ⟨hlock, hrest⟩ := Bool.and_eq_true_iff.mp hp
    obtain ⟨x, hx, hq⟩ := (Option.any_eq_true _ _).mp hrest
    obtain ⟨hend, hguard, hdead, hchild⟩ := of_decide_eq_true hq
    refine ⟨u, x, hu, of_decide_eq_true hlock, hx, hend, fun v hv sessionId stage he => ?_, hdead,
      hchild⟩
    exact hguard v hv (by rw [he]; rfl)
  · obtain ⟨u, hu, hp⟩ := (Option.any_eq_true _ _).mp hagain
    obtain ⟨hlock, hrest⟩ := Bool.and_eq_true_iff.mp hp
    obtain ⟨x, hx, hq⟩ := (Option.any_eq_true _ _).mp hrest
    obtain ⟨hend, hleased⟩ := of_decide_eq_true hq
    exact ⟨u, x, hu, of_decide_eq_true hlock, hx, hend, hleased⟩

theorem release_outcome_close_lost :
    ∃ u x, Runs.run (step ⟨1, 0, 300, 600⟩) (init ⟨1, 0, 300, 600⟩) closeSent = some u ∧
      u.tasks 2 = some (.release ⟨"A", 0⟩ true .lock) ∧
      Runs.run (step ⟨1, 0, 300, 600⟩) u closeLost = some x ∧ x.mem.stateOf 0 ≠ some .idle := by
  have hrun : (Runs.run (step ⟨1, 0, 300, 600⟩) (init ⟨1, 0, 300, 600⟩) closeSent).any (fun u =>
      decide (u.tasks 2 = some (.release ⟨"A", 0⟩ true .lock)) &&
      (Runs.run (step ⟨1, 0, 300, 600⟩) u closeLost).any fun x =>
        (x.tasks 2).any fun p => !p.recycled) = true := by
    decide +kernel
  obtain ⟨u, hu, hp⟩ := (Option.any_eq_true _ _).mp hrun
  obtain ⟨hlock, hrest⟩ := Bool.and_eq_true_iff.mp hp
  obtain ⟨x, hx, hq⟩ := (Option.any_eq_true _ _).mp hrest
  obtain ⟨p, hp, hno⟩ := (Option.any_eq_true _ _).mp hq
  have hlock := of_decide_eq_true hlock
  exact ⟨u, x, hu, hlock, hx, (release_outcome hu hlock hx).1 p hp (by simpa using hno)⟩

end IdaHeadless.WorkerPool
