import IdaHeadless.WorkerPool.Leak

/-!
# The end of the pool

`shutdown_all` retires the children it finds. What it has to rely on is that every
worker process is a child, or in the hands of a task: a live slot is listed in the
children, reserved by the task that builds it, or about to be retired; a slot that is
`Closing` has its release, or the guard of one, at work on it; and a release that
retires its slot has sent `close_idb` as the last request and has its answer.
-/

namespace IdaHeadless.WorkerPool

variable {cfg : Config} {own : Own} {s : Pool} {x x' : World} {a : Act} {t u : TaskId} {p q : Pc}
  {o : Outcome} {m : Move} {k : SessionRef} {w : WorkerId} {st : ChildState}

/-! ### A live slot is listed -/

def Listed (x : World) : Prop :=
  ∀ w st, x.mem.stateOf w = some st → st ≠ .dead → w ∈ x.mem.children ∨
    ∃ t p, x.tasks t = some p ∧ (p.reserves = some w ∨ p = .retire w .reservation .take)

/- A slot that is live after a step was live before, or is built by the holder of its
reservation. -/
theorem live_before (hI : Inv cfg own x) (h : step cfg x a = some x')
    (hst : x'.mem.stateOf w = some st) (hlive : st ≠ .dead) :
    (∃ st', x.mem.stateOf w = some st' ∧ st' ≠ .dead) ∨
      ∃ t o p, a = .advance t o ∧ x.tasks t = some p ∧ p.reserves = some w := by
  have hknown : ∀ v, Known x.mem v → x.mem.stateOf v ≠ some .dead →
      ∃ st', x.mem.stateOf v = some st' ∧ st' ≠ .dead := by
    intro v hv hdead
    obtain ⟨st', hst'⟩ := Option.ne_none_iff_exists'.mp hv.1
    exact ⟨st', hst', fun he => hdead (by rw [hst', he])⟩
  rcases step_slot h w with ⟨hstate, -⟩ | ⟨t, o, pc, rfl, hpc, hc⟩
  · exact .inl ⟨st, hstate.symm.trans hst, hlive⟩
  · have hg := hI.good t pc hpc
    cases hc with
    | same state sent => exact .inl ⟨st, state.symm.trans hst, hlive⟩
    | builtIdle pc_eq state =>
      refine .inr ⟨t, o, pc, rfl, hpc, ?_⟩
      rcases pc_eq with ⟨left, rfl⟩ | ⟨v, ctx, rfl⟩
      · rfl
      · rfl
    | builtLeased k timeout sessionId pc_eq id state =>
      subst pc_eq
      exact .inr ⟨t, o, _, rfl, hpc, rfl⟩
    | called k h caller timeout pc_eq worker before state => exact .inl ⟨_, before, by simp⟩
    | granted k timeout active rest deadIds sessionId pc_eq before id state sent =>
      exact .inl ⟨_, before, by simp⟩
    | closing h save pc_eq worker before state =>
      subst pc_eq worker
      exact .inl (hknown _ hg.2.1 before)
    | recycled h save pc_eq worker before state path =>
      subst pc_eq worker
      exact .inl (hknown _ hg.2.1 before)
    | retired ctx pc_eq state sent =>
      rw [state] at hst
      exact absurd (Option.some.inj hst).symm hlive
    | reaped started pc_eq before state sent =>
      rw [state] at hst
      exact absurd (Option.some.inj hst).symm hlive

/- The holder of a reservation keeps it, puts the slot among the children, or goes on to
retire it. -/
theorem reserves_advance (hg : Good cfg own s t p) (hm : advance cfg s t o p = some m)
    (hp : p.reserves = some w) (hst : m.mem.stateOf w = some st) :
    w ∈ m.mem.children ∨ m.point.reserves = some w ∨ m.point = .retire w .reservation .take := by
  cases advance_registry hg hm with
  | same children spawning reserves => exact .inr (.inl (reserves w hp))
  | forgot ids dead state children spawning before
  | reserved ids dead state children spawning before =>
    rw [before] at hp
    cases hp
  | installed id live state children spawning before =>
    rw [before] at hp
    cases hp
    rw [children]
    exact .inl (List.mem_append_right _ (List.mem_singleton_self _))
  | released id state children spawning failed =>
    rw [state w] at hst
    have hbuilt : ∀ id, s.stateOf id = none → id ≠ w := by
      rintro id hnone rfl
      rw [hnone] at hst
      cases hst
    rcases failed with
      ⟨left, err, rfl⟩ | ⟨k, timeout, err, rfl⟩ | ⟨v, ctx, err, rfl⟩ | rfl | ⟨rfl, hq⟩
    · exact absurd (Option.some.inj hp) (hbuilt id hg.2.2.2.2.2)
    · exact absurd (Option.some.inj hp) (hbuilt id hg.2.2.1.2.2)
    · exact absurd (Option.some.inj hp) (hbuilt id hg.2.2.2.2.2.2)
    · exact absurd (Option.some.inj hp) (hbuilt id hg.2.2.2)
    · cases hp
      exact .inr (.inr hq)

/- A dropped future leaves its reservation to a task. -/
theorem reserves_drop (hm : dropTask s t p = some m) (hp : p.reserves = some w) :
    ∃ q ∈ m.spawned, q.reserves = some w := by
  cases p with
  | lease k timeout stage =>
    cases stage with
    | spawn id | install id failed =>
      cases hp
      cases hm
      exact ⟨_, List.mem_singleton_self _, rfl⟩
    | handle | inner | scan => cases hp
  | retire v ctx stage =>
    cases stage with
    | spawn id | install id failed =>
      cases hp
      cases ctx with
      | call | release =>
        cases hm
        exact ⟨_, List.mem_cons_of_mem _ (List.mem_singleton_self _), rfl⟩
      | dispatch =>
        cases hm
        exact ⟨_, List.mem_singleton_self _, rfl⟩
      | guard | reservation | shutdown => cases hm
    | take | forget | finish | check => cases hp
  | warm | unreserve => cases hm
  | done | call | dispatchHandle | dispatchClear | openStore | takeHandle | release | reap =>
    cases hp

/- Only dead slots leave the children. -/
theorem child_kept (hI : Inv cfg own x) (h : step cfg x a = some x') (hw : w ∈ x.mem.children)
    (hst : x.mem.stateOf w ≠ some .dead) : w ∈ x'.mem.children := by
  by_cases hadv : ∀ t o, a ≠ .advance t o
  · rw [(step_registry h hadv).1]
    exact hw
  · push Not at hadv
    obtain ⟨t, o, rfl⟩ := hadv
    obtain ⟨p, m, hp, hm, rfl⟩ := step_advance_iff.mp h
    rw [Tasks.resume_mem]
    cases advance_registry (hI.good t p hp) hm with
    | same children => rwa [children]
    | forgot ids dead state children | reserved ids dead state children =>
      rw [children]
      exact List.mem_filter.mpr ⟨hw, by simpa using fun hid => hst (dead w hid)⟩
    | installed id live state children =>
      rw [children]
      exact List.mem_append_left _ hw
    | released id state children => rwa [children]

theorem listed_step (hL : Listed x) (hI : Inv cfg own x) (h : step cfg x a = some x') :
    Listed x' := by
  intro w st hst hlive
  have hresume : ∀ t o p, a = .advance t o → x.tasks t = some p → p.reserves = some w →
      w ∈ x'.mem.children ∨
        ∃ t p, x'.tasks t = some p ∧ (p.reserves = some w ∨ p = .retire w .reservation .take) := by
    rintro t o p rfl hp hres
    obtain ⟨m, hm, rfl⟩ := step_advance_at hp h
    rcases reserves_advance (hI.good t p hp) hm hres hst with hchild | hpoint
    · exact .inl hchild
    · exact .inr ⟨t, _, Tasks.resume_self m (hI.lt_next hp), hpoint⟩
  rcases live_before hI h hst hlive with ⟨st', hst', hlive'⟩ | ⟨t, o, p, ha, hp, hres⟩
  · rcases hL w st' hst' hlive' with hchild | ⟨t, p, hp, hmine⟩
    · exact .inl (child_kept hI h hchild fun hd => hlive' (Option.some.inj (hst'.symm.trans hd)))
    · by_cases hmoves : a.Moves t
      · rcases hmine with hres | rfl
        · rcases hmoves with rfl | ⟨o, rfl⟩
          · obtain ⟨m, hm, rfl⟩ := step_drop_at hp h
            obtain ⟨q, hq, hres'⟩ := reserves_drop hm hres
            obtain ⟨i, hi⟩ := List.mem_iff_getElem?.mp hq
            exact .inr ⟨x.next + i, q, Tasks.spawn_new hi, .inl hres'⟩
          · exact hresume t o p rfl hp hres
        · -- the retirement of a dropped reservation takes the slot at this step
          exfalso
          rcases hmoves with rfl | ⟨o, rfl⟩
          · obtain ⟨m, hm, rfl⟩ := step_drop_at hp h
            cases hm
          · obtain ⟨m, hm, rfl⟩ := step_advance_at hp h
            rw [Tasks.resume_mem] at hst
            cases advanceRetire_move hm with
            | wasDead slot found dead =>
              rw [stateOf_eq found, dead] at hst'
              exact hlive' (Option.some.inj hst').symm
            | killed slot found live =>
              rw [(kill_slot found).1] at hst
              exact hlive (Option.some.inj hst).symm
      · exact .inr ⟨t, p, step_kept hI h hp hmoves, hmine⟩
  · exact hresume t o p ha hp hres

/-! ### A closing slot has a release at work -/

/-- The slot that a task has set closing, or is going to retire for a release. -/
def Pc.closes : Pc → Option WorkerId
  | .release h _ .close | .release h _ .final => some h.workerId
  | .retire w (.release ..) .take | .retire w (.guard ..) .take => some w
  | _ => none

def Attached (x : World) : Prop :=
  ∀ w, x.mem.stateOf w = some .closing → ∃ t p, x.tasks t = some p ∧ p.closes = some w

theorem closes_iff : p.closes = some w ↔
    (∃ h save, p = .release h save .close ∧ h.workerId = w) ∨
    (∃ h save, p = .release h save .final ∧ h.workerId = w) ∨
    (∃ sessionId save err, p = .retire w (.release sessionId save err) .take) ∨
    ∃ origin sessionId, p = .retire w (.guard origin sessionId) .take := by
  constructor
  · intro hp
    unfold Pc.closes at hp
    split at hp <;> cases hp
    · exact .inl ⟨_, _, rfl, rfl⟩
    · exact .inr (.inl ⟨_, _, rfl, rfl⟩)
    · exact .inr (.inr (.inl ⟨_, _, _, rfl⟩))
    · exact .inr (.inr (.inr ⟨_, _, rfl⟩))
  · rintro (⟨h, save, rfl, rfl⟩ | ⟨h, save, rfl, rfl⟩ | ⟨sessionId, save, err, rfl⟩ |
      ⟨origin, sessionId, rfl⟩) <;> rfl

/- A retirement that takes its slot leaves it dead. -/
theorem take_not_closing {ctx : RetireCtx} (hm : advanceRetire cfg s w ctx .take o = some m)
    (hst : m.mem.stateOf w = some .closing) : False := by
  cases advanceRetire_move hm with
  | wasDead slot found dead =>
    rw [stateOf_eq found, dead] at hst
    cases hst
  | killed slot found live =>
    rw [(kill_slot found).1] at hst
    cases hst

theorem closes_advance (hm : advance cfg s t o p = some m) (hp : p.closes = some w)
    (hst : m.mem.stateOf w = some .closing) : m.point.closes = some w := by
  rcases closes_iff.mp hp with ⟨h, save, rfl, rfl⟩ | ⟨h, save, rfl, rfl⟩ |
    ⟨sessionId, save, err, rfl⟩ | ⟨origin, sessionId, rfl⟩
  · cases advanceRelease_move hm with
    | closed answer ok => rfl
    | closeFailed answer err failed => rfl
  · exfalso
    cases advanceRelease_move hm with
    | diedAfter slot found dead =>
      rw [stateOf_unlockCall, stateOf_eq found, dead] at hst
      cases hst
    | recycled slot found live =>
      rw [stateOf_unlockCall, stateOf_setSlot, if_pos rfl] at hst
      cases hst
  · exact (take_not_closing hm hst).elim
  · exact (take_not_closing hm hst).elim

theorem closes_drop (hm : dropTask s t p = some m) (hp : p.closes = some w) :
    ∃ sessionId rest, m.spawned = .retire w (.guard t sessionId) .take :: rest := by
  rcases closes_iff.mp hp with ⟨h, save, rfl, rfl⟩ | ⟨h, save, rfl, rfl⟩ |
    ⟨sessionId, save, err, rfl⟩ | ⟨origin, sessionId, rfl⟩
  · cases hm
    exact ⟨_, _, rfl⟩
  · cases hm
    exact ⟨_, _, rfl⟩
  · cases hm
    exact ⟨_, _, rfl⟩
  · cases hm

theorem attached_step (hA : Attached x) (hI : Inv cfg own x) (h : step cfg x a = some x') :
    Attached x' := by
  intro w hst'
  have hbefore : x.mem.stateOf w = some .closing ∨
      ∃ t o hd save, a = .advance t o ∧ x.tasks t = some (.release hd save .child) ∧
        hd.workerId = w := by
    rcases step_slot h w with ⟨hstate, -⟩ | ⟨t, o, pc, rfl, hpc, hc⟩
    · exact .inl (hstate.symm.trans hst')
    · cases hc with
      | same state sent => exact .inl (state.symm.trans hst')
      | called k hd caller timeout pc_eq worker before state => exact .inl (state.symm.trans hst')
      | closing hd save pc_eq worker before state =>
        subst pc_eq
        exact .inr ⟨t, o, hd, save, rfl, hpc, worker⟩
      | builtIdle _ state | builtLeased _ _ _ _ _ state | granted _ _ _ _ _ _ _ _ _ state _
      | recycled _ _ _ _ _ state _ | retired _ _ state _ | reaped _ _ _ state _ =>
        rw [state] at hst'
        cases hst'
  rcases hbefore with hst | ⟨t, o, hd, save, rfl, hp, rfl⟩
  · obtain ⟨t, p, hp, hcloses⟩ := hA w hst
    by_cases hmoves : a.Moves t
    · rcases hmoves with rfl | ⟨o, rfl⟩
      · obtain ⟨m, hm, rfl⟩ := step_drop_at hp h
        obtain ⟨sessionId, rest, hspawned⟩ := closes_drop hm hcloses
        exact ⟨x.next + 0, _, Tasks.spawn_new (by rw [hspawned]; rfl), rfl⟩
      · obtain ⟨m, hm, rfl⟩ := step_advance_at hp h
        exact ⟨t, _, Tasks.resume_self m (hI.lt_next hp), closes_advance hm hcloses hst'⟩
    · exact ⟨t, p, step_kept hI h hp hmoves, hcloses⟩
  · obtain ⟨m, hm, rfl⟩ := step_advance_at hp h
    refine ⟨t, _, Tasks.resume_self m (hI.lt_next hp), ?_⟩
    cases advanceRelease_move hm with
    | diedBefore slot found dead =>
      rw [Tasks.resume_mem, stateOf_unlockCall, stateOf_eq found, dead] at hst'
      cases hst'
    | closing slot found live => rfl

/-! ### `close_idb` is the last request of a release -/

def Pool.lastSent (s : Pool) (w : WorkerId) : Option Request := (s.sentOf w).bind List.getLast?

/-- The slot that a release has sent `close_idb` to, until it gives it back. -/
def Pc.closeSent : Pc → Option (WorkerId × Request)
  | .release h save .close | .release h save .final => some (h.workerId, .closeIdb h.sessionId save)
  | .retire w (.release sessionId save _) .take => some (w, .closeIdb sessionId save)
  | _ => none

def CloseLast (x : World) : Prop :=
  ∀ t p w r, x.tasks t = some p → p.closeSent = some (w, r) → x.mem.lastSent w = some r

theorem closeSent_owns {r : Request} (hg : Good cfg own s t p) (hp : p.closeSent = some (w, r)) :
    own w = .task t ∧ s.callLockOf w = some t ∧ Known s w := by
  unfold Pc.closeSent at hp
  split at hp <;> cases hp
  · exact ⟨hg.2.2.1, hg.2.2.2.1, hg.2.1⟩
  · exact ⟨hg.2.2.1, hg.2.2.2.1, hg.2.1⟩
  · exact ⟨hg.2.2.1.1, hg.2.2.1.2.1, hg.2.1⟩

/- The release holds the slot and its call lock, so nobody else sends to it. -/
theorem lastSent_kept {r : Request} (hI : Inv cfg own x) (h : step cfg x a = some x')
    (hp : x.tasks u = some p) (hsent : p.closeSent = some (w, r)) (hother : ¬ a.Moves u) :
    x'.mem.lastSent w = x.mem.lastSent w := by
  obtain ⟨howns, hlock, hknown⟩ := closeSent_owns (hI.good u p hp) hsent
  have hsame : x'.mem.sentOf w = x.mem.sentOf w → x'.mem.lastSent w = x.mem.lastSent w := by
    intro he
    unfold Pool.lastSent
    rw [he]
  rcases step_slot h w with ⟨-, hs⟩ | ⟨t, o, pc, rfl, hpc, hc⟩
  · exact hsame hs
  · have hg := hI.good t pc hpc
    have htu : t ≠ u := fun he => hother (.inr ⟨o, by rw [he]⟩)
    have hnotOwn : own w ≠ .task t := by
      rw [howns]
      intro he
      cases he
      exact htu rfl
    cases hc with
    | same state sent => exact hsame sent
    | builtIdle pc_eq state =>
      rcases pc_eq with ⟨left, rfl⟩ | ⟨v, ctx, rfl⟩
      · exact absurd hg.2.2.2.1 hknown.2
      · exact absurd hg.2.2.2.2.1 hknown.2
    | builtLeased k timeout sessionId pc_eq id state =>
      subst pc_eq
      exact absurd hg.2.2.1 hknown.2
    | called k hd caller timeout pc_eq worker before state =>
      subst pc_eq worker
      have hmine : x.mem.callLockOf hd.workerId = some t := hg.2.2.1
      rw [hlock] at hmine
      cases hmine
      exact absurd rfl htu
    | granted k timeout active rest deadIds sessionId pc_eq before id state sent => exact hsame sent
    | closing hd save pc_eq worker before state =>
      subst pc_eq worker
      exact absurd hg.2.2.1 hnotOwn
    | recycled hd save pc_eq worker before state path =>
      subst pc_eq worker
      exact absurd hg.2.2.1 hnotOwn
    | retired ctx pc_eq state sent => exact hsame sent
    | reaped started pc_eq before state sent => exact hsame sent

theorem closeSent_iff {r : Request} : p.closeSent = some (w, r) ↔
    (∃ h save, p = .release h save .close ∧ h.workerId = w ∧ r = .closeIdb h.sessionId save) ∨
    (∃ h save, p = .release h save .final ∧ h.workerId = w ∧ r = .closeIdb h.sessionId save) ∨
    ∃ sessionId save err, p = .retire w (.release sessionId save err) .take ∧
      r = .closeIdb sessionId save := by
  constructor
  · intro hp
    unfold Pc.closeSent at hp
    split at hp <;> cases hp
    · exact .inl ⟨_, _, rfl, rfl, rfl⟩
    · exact .inr (.inl ⟨_, _, rfl, rfl, rfl⟩)
    · exact .inr (.inr ⟨_, _, _, rfl, rfl⟩)
  · rintro
      (⟨h, save, rfl, rfl, rfl⟩ | ⟨h, save, rfl, rfl, rfl⟩ | ⟨sessionId, save, err, rfl, rfl⟩) <;>
      rfl

/- A release comes to have sent `close_idb` by sending it. -/
theorem closeSent_advance {r : Request} (hm : advance cfg s t o p = some m)
    (hsent : m.point.closeSent = some (w, r)) :
    (p.closeSent = some (w, r) ∧ m.mem = s) ∨ m.mem.lastSent w = some r := by
  have hflow : Flow p m.point := by
    rcases advance_goes hm with hf | ⟨exit, he, -⟩
    · exact hf
    · rw [he] at hsent
      cases hsent
  rcases closeSent_iff.mp hsent with ⟨h, save, hpoint, rfl, rfl⟩ | ⟨h, save, hpoint, rfl, rfl⟩ |
    ⟨sessionId, save, err, hpoint, rfl⟩
  · rw [hpoint] at hflow
    cases hflow
    right
    cases advanceRelease_move hm with
    | closing slot found live =>
      unfold Pool.lastSent
      rw [sentOf_setSlot, if_pos rfl, Option.bind_some, List.getLast?_concat]
    | diedBefore slot found dead => cases hpoint
  · rw [hpoint] at hflow
    cases hflow
    left
    refine ⟨rfl, ?_⟩
    cases advanceRelease_move hm with
    | closed answer ok => rfl
    | closeFailed answer err failed => rfl
  · rw [hpoint] at hflow
    cases hflow
    left
    refine ⟨rfl, ?_⟩
    cases advanceRelease_move hm with
    | closed answer ok => rfl
    | closeFailed answer err failed => rfl

theorem closeLast_step (hC : CloseLast x) (hI : Inv cfg own x) (h : step cfg x a = some x') :
    CloseLast x' := by
  intro u q w r hq hsent
  cases step_task h hq with
  | kept before other =>
    rw [lastSent_kept hI h before hsent other]
    exact hC u q w r before hsent
  | moved o p m act before move point world =>
    subst world point
    rw [Tasks.resume_mem]
    rcases closeSent_advance move hsent with ⟨hbefore, hmem⟩ | hlast
    · rw [hmem]
      exact hC u p w r before hbefore
    · exact hlast
  | dropped p m act before move point world =>
    obtain ⟨exit, he⟩ := dropTask_point move
    rw [point, he] at hsent
    cases hsent
  | started before start =>
    cases start with
    | drops t p q pc_eq left => cases left <;> cases hsent
    | _ => cases hsent

/-! ### `shutdown_all` -/

/-- No retirement of `shutdown_all` is under way. -/
def NoShutdown (x : World) : Prop := ∀ t w stage, x.tasks t ≠ some (.retire w .shutdown stage)

theorem noShutdown_step (hN : NoShutdown x) (h : step cfg x a = some x') (ha : a ≠ .shutdownAll) :
    NoShutdown x' := by
  intro u w stage hq
  cases step_task h hq with
  | kept before other => exact hN u w stage before
  | moved o p m act before move point world =>
    rcases advance_goes move with hf | ⟨exit, he, -⟩
    · rw [← point] at hf
      cases hf with
      | retireTake | retireForget | retireCheck | retireSpawn | retireInstall =>
        exact hN u w _ before
    · rw [he] at point
      cases point
  | dropped p m act before move point world =>
    obtain ⟨exit, he⟩ := dropTask_point move
    rw [he] at point
    cases point
  | started before start =>
    cases start with
    | shutdownAll => exact ha rfl
    | drops t p q pc_eq left => cases left

variable {first last : TaskId}

/-- A task that uses no worker: over, waiting for an idle timeout, or with its worker still
to be looked up or claimed. -/
def Pc.quiet : Pc → Bool
  | .done _ | .reap .. | .takeHandle .. | .dispatchHandle .. | .dispatchClear _ _ false _
  | .call _ _ _ _ .lock | .call _ _ _ _ .child => true
  | _ => false

/-- What still runs in a stopped pool. -/
def Pc.lingers : Pc → Bool
  | .retire _ .shutdown .take | .retire _ .shutdown (.forget _) | .retire _ .shutdown .finish =>
    true
  | p => p.quiet

/-- No session has a worker, what still runs builds none, and every worker that is not dead is
idle and has one of the tasks from `first` to `last` coming for it. -/
structure Stopped (first last : TaskId) (x : World) : Prop where
  free : ∀ k, x.mem.handleOf k = none
  tasks : ∀ t p, x.tasks t = some p → p.lingers = true
  idle : ∀ w st, x.mem.stateOf w = some st → st = .idle ∨ st = .dead
  pending : ∀ w, x.mem.stateOf w = some .idle →
    ∃ t, first ≤ t ∧ t < last ∧ x.tasks t = some (.retire w .shutdown .take)

theorem lingers_iff : p.lingers = true ↔ p.quiet = true ∨ ∃ w stage, p = .retire w .shutdown stage ∧
    (stage = .take ∨ (∃ took, stage = .forget took) ∨ stage = .finish) := by
  constructor
  · intro hp
    unfold Pc.lingers at hp
    split at hp
    · exact .inr ⟨_, _, rfl, .inl rfl⟩
    · exact .inr ⟨_, _, rfl, .inr (.inl ⟨_, rfl⟩)⟩
    · exact .inr ⟨_, _, rfl, .inr (.inr rfl)⟩
    · exact .inl hp
  · rintro (hp | ⟨w, stage, rfl, rfl | ⟨took, rfl⟩ | rfl⟩)
    · unfold Pc.lingers
      split
      · rfl
      · rfl
      · rfl
      · exact hp
    · rfl
    · rfl
    · rfl

/- Nothing is given to a quiet task where no session has a worker and no slot is leased. -/
theorem quiet_advance (hfree : ∀ k, s.handleOf k = none)
    (hidle : ∀ w st, s.stateOf w = some st → st = .idle ∨ st = .dead)
    (hm : advance cfg s t o p = some m) (hp : p.quiet = true) : m.point.quiet = true := by
  have hopen : ∀ k fresh err, (openErrPc k fresh err).quiet = true := by
    intro k fresh err
    unfold openErrPc
    split <;> rfl
  cases advance_moves hm with
  | warm | lease | release | retire => cases hp
  | call k h caller timeout stage move =>
    cases move with
    | locked slot found free => rfl
    | sent slot found leased =>
      rcases hidle _ _ (stateOf_eq found) with hst | hst
      · rw [leased] at hst
        cases hst
      · rw [leased] at hst
        cases hst
    | refused slot found other =>
      cases caller with
      | dispatch tool => rfl
      | openObserved fresh => exact hopen _ _ _
    | answered | crashed | timedOut | cancelled => cases hp
  | reap w started stage move =>
    rcases advance_goes hm with hf | ⟨exit, he, -⟩
    · generalize m.point = q at hf ⊢
      cases hf
      rfl
    · rw [he]
      rfl
  | single outcome move =>
    cases move with
    | notOpen | nothingTaken => rfl
    | dispatched k tool timeout se h session free handle =>
      have hnone := hfree k
      rw [handleOf_eq session, handle] at hnone
      cases hnone
    | taken k save detached se h session free handle =>
      have hnone := hfree k
      rw [handleOf_eq session, handle] at hnone
      cases hnone
    | cleared k h retire err se session free =>
      cases retire with
      | true => cases hp
      | false => rfl
    | stored | unreserved => cases hp

theorem lingers_advance (hS : Stopped first last x) (hm : advance cfg x.mem t o p = some m)
    (hp : p.lingers = true) : m.point.lingers = true := by
  rcases lingers_iff.mp hp with hquiet | ⟨w, stage, rfl, hstage⟩
  · exact lingers_iff.mpr (.inl (quiet_advance hS.free hS.idle hm hquiet))
  · cases advanceRetire_move hm with
    | wasDead | killed | forgotten | forgottenDead | finished => rfl
    | enough | reserves | spawned | spawnFailed | installed | failed => simp at hstage

/- A dropped future that lingered leaves nothing behind. -/
theorem lingers_drop (hp : p.lingers = true) (hd : Drops t p q) : False := by
  cases hd with
  | spawn pc id held =>
    rcases held with ⟨_, _, rfl⟩ | ⟨_, ctx, rfl⟩
    · cases hp
    · cases ctx <;> cases hp
  | install pc id failed held =>
    rcases held with ⟨_, _, rfl⟩ | ⟨_, ctx, rfl⟩
    · cases hp
    · cases ctx <;> cases hp
  | call | release | retireCall | retireRelease => cases hp

theorem lingers_writes (hp : p.lingers = true) (hw : p.writes = some w) :
    p = .retire w .shutdown .take ∨ (∃ started, p = .reap w started .take) ∨
      ∃ k h caller timeout, p = .call k h caller timeout .child := by
  cases p with
  | retire v ctx stage =>
    rcases lingers_iff.mp hp with hquiet | ⟨_, _, he, rfl | ⟨took, rfl⟩ | rfl⟩
    · cases hquiet
    · cases he
      cases hw
      exact .inl rfl
    · cases he
      cases hw
    · cases he
      cases hw
  | reap v started stage =>
    cases stage with
    | take =>
      cases hw
      exact .inr (.inl ⟨started, rfl⟩)
    | spawned | sleep | inner | count | forget | finish => cases hw
  | call k h caller timeout stage =>
    cases stage with
    | child => exact .inr (.inr ⟨k, h, caller, timeout, rfl⟩)
    | lock | await => cases hw
  | done | dispatchHandle | dispatchClear | openStore | takeHandle | unreserve => cases hw
  | warm | lease | release => cases hp

theorem stopped_free (hS : Stopped first last x) (hI : Inv cfg own x) (h : step cfg x a = some x')
    (k : SessionRef) : x'.mem.handleOf k = none := by
  by_cases hadv : ∀ t o, a ≠ .advance t o
  · rw [step_handle hI h hadv]
    exact hS.free k
  · push Not at hadv
    obtain ⟨t, o, rfl⟩ := hadv
    obtain ⟨p, m, hp, hm, rfl⟩ := step_advance_iff.mp h
    rw [Tasks.resume_mem]
    cases advance_session hm k with
    | same handle dropped => exact handle.trans (hS.free k)
    | stored timeout v sessionId pc_eq handle dropped =>
      have hlingers := hS.tasks t p hp
      rcases pc_eq with ⟨rest, active, deadIds, rfl⟩ | rfl
      · cases hlingers
      · cases hlingers
    | taken save detached hd pc_eq before next handle dropped => exact handle
    | cleared hd retire err pc_eq before next handle dropped => exact handle

/- In a stopped pool only a new `open_observed` would ask for a worker. -/
theorem stopped_tasks (hS : Stopped first last x) (h : step cfg x a = some x')
    (ha : ∀ k secs, a ≠ .openObserved k secs) (ha' : a ≠ .shutdownAll) (hq : x'.tasks u = some q) :
    q.lingers = true := by
  cases step_task h hq with
  | kept before other => exact hS.tasks u q before
  | moved o p m act before move point world =>
    rw [point]
    exact lingers_advance hS move (hS.tasks u p before)
  | dropped p m act before move point world =>
    obtain ⟨exit, he⟩ := dropTask_point move
    rw [point, he]
    rfl
  | started before start =>
    cases start with
    | openObserved k secs => exact absurd rfl (ha k secs)
    | callTool | closeWithSave | dropSession | reap => rfl
    | shutdownAll w child => exact absurd rfl ha'
    | drops t p q pc_eq left =>
      exact (lingers_drop (hS.tasks t p pc_eq) left).elim

theorem stopped_step (hS : Stopped first last x) (hI : Inv cfg own x) (h : step cfg x a = some x')
    (ha : ∀ k secs, a ≠ .openObserved k secs) (ha' : a ≠ .shutdownAll) : Stopped first last x' := by
  have hslot : ∀ w, x'.mem.stateOf w = x.mem.stateOf w ∨ x'.mem.stateOf w = some .dead := by
    intro w
    rcases step_slot h w with ⟨hst, -⟩ | ⟨t, o, p, rfl, hp, hc⟩
    · exact .inl hst
    · by_cases hw : p.writes = some w
      · have hpc := lingers_writes (hS.tasks t p hp) hw
        cases hc with
        | same state sent => exact .inl state
        | called k hd caller timeout pc_eq worker before state => exact .inl state
        | retired ctx pc_eq state sent => exact .inr state
        | reaped started pc_eq before state sent => exact .inr state
        | builtIdle pc_eq state =>
          rcases pc_eq with ⟨_, rfl⟩ | ⟨_, _, rfl⟩ <;> simp at hpc
        | closing _ _ pc_eq | recycled _ _ pc_eq | builtLeased _ _ _ pc_eq
        | granted _ _ _ _ _ _ pc_eq =>
          subst pc_eq
          simp at hpc
      · exact .inl (hc.unwritten hw).1
  refine ⟨stopped_free hS hI h, fun t p hp => stopped_tasks hS h ha ha' hp, ?_, ?_⟩
  · intro w st hst
    rcases hslot w with hsame | hdead
    · exact hS.idle w st (hsame.symm.trans hst)
    · rw [hdead] at hst
      exact .inr (Option.some.inj hst).symm
  · intro w hidle
    have hbefore : x.mem.stateOf w = some .idle := by
      rcases hslot w with hsame | hdead
      · exact hsame.symm.trans hidle
      · rw [hdead] at hidle
        cases hidle
    obtain ⟨t, hfirst, hlast, ht⟩ := hS.pending w hbefore
    refine ⟨t, hfirst, hlast, step_kept hI h ht ?_⟩
    -- the task would have taken the slot
    rintro (rfl | ⟨o, rfl⟩)
    · obtain ⟨m, hm, -⟩ := step_drop_at ht h
      cases hm
    · obtain ⟨m, hm, rfl⟩ := step_advance_at ht h
      rw [Tasks.resume_mem] at hidle
      cases advanceRetire_move hm with
      | wasDead slot found dead =>
        rw [stateOf_eq found, dead] at hbefore
        cases hbefore
      | killed slot found live =>
        rw [(kill_slot found).1] at hidle
        cases hidle

/-- What a pool that is to be stopped keeps along a run. -/
structure EndInv (x : World) : Prop where
  lease : LeaseInv x
  listed : Listed x
  attached : Attached x
  closeLast : CloseLast x

theorem init_endInv (cfg : Config) : EndInv (init cfg) where
  lease := init_leaseInv cfg
  listed w st hst := by cases hst
  attached w hst := by cases hst
  closeLast t p w r hp hr := by
    simp only [init] at hp
    split at hp <;> cases hp
    cases hr

theorem EndInv.step (hE : EndInv x) (hI : Inv cfg own x) (hK : KeepsLease x a)
    (h : step cfg x a = some x') : EndInv x' where
  lease := hE.lease.step hI hK h
  listed := listed_step hE.listed hI h
  attached := attached_step hE.attached hI h
  closeLast := closeLast_step hE.closeLast hI h

theorem quiet_settles (hquiet : p.quiet = true) : p.settles = none ∧ p.reserves = none ∧
    p.closes = none := by
  cases p with
  | done | reap | takeHandle | dispatchHandle | dispatchClear | openStore | call =>
    exact ⟨rfl, rfl, rfl⟩
  | warm | lease | release | retire | unreserve => cases hquiet

theorem lingers_reserves (hp : p.lingers = true) : p.reserves = none := by
  rcases lingers_iff.mp hp with hquiet | ⟨w, stage, rfl, rfl | ⟨took, rfl⟩ | rfl⟩
  · exact (quiet_settles hquiet).2.1
  · rfl
  · rfl
  · rfl

/- Where no session has a worker and no task is at work on one, the children are all the
workers there are, and none of them is in use. -/
theorem shutdownAll_stopped (hE : EndInv x) (h : step cfg x .shutdownAll = some x')
    (hfree : ∀ k, x.mem.handleOf k = none)
    (hquiet : ∀ t p, x.tasks t = some p → p.quiet = true) : Stopped x.next x'.next x' := by
  have hchild : ∀ w st, x.mem.stateOf w = some st → st ≠ .dead → w ∈ x.mem.children := by
    intro w st hst hlive
    rcases hE.listed w st hst hlive with hw | ⟨t, p, hp, hres | rfl⟩
    · exact hw
    · rw [(quiet_settles (hquiet t p hp)).2.1] at hres
      cases hres
    · cases hquiet t _ hp
  have hidle : ∀ w st, x.mem.stateOf w = some st → st = .idle ∨ st = .dead := by
    intro w st hst
    cases st with
    | idle => exact .inl rfl
    | dead => exact .inr rfl
    | leased sessionId =>
      exfalso
      have hw := hchild w _ hst (by simp)
      rcases hE.lease.covered w hw (leasedAt_iff.mpr ⟨sessionId, hst⟩) with ⟨k, hk⟩ | ⟨t, p, hp, hs⟩
      · rw [Pool.workerOf, hfree k] at hk
        cases hk
      · rw [(quiet_settles (hquiet t p hp)).1] at hs
        cases hs
    | closing =>
      exfalso
      obtain ⟨t, p, hp, hcloses⟩ := hE.attached w hst
      rw [(quiet_settles (hquiet t p hp)).2.2] at hcloses
      cases hcloses
  simp only [WorkerPool.step] at h
  split at h
  · cases h
  · cases h
    refine ⟨hfree, fun t p hp => ?_, hidle, fun w hw => ?_⟩
    · rcases Tasks.spawn_tasks hp with hold | ⟨i, rfl, hi⟩
      · exact lingers_iff.mpr (.inl (hquiet t p hold))
      · obtain ⟨w, hw, rfl⟩ := List.mem_map.mp (List.mem_of_getElem? hi)
        rfl
    · obtain ⟨i, hi⟩ := List.mem_iff_getElem?.mp (hchild w _ hw (by simp))
      have hlt : i < x.mem.children.length := (List.getElem?_eq_some_iff.mp hi).1
      refine ⟨x.next + i, Nat.le_add_right _ _, ?_, Tasks.spawn_new ?_⟩
      · have hnext : (x.spawn (x.mem.children.map fun w => Pc.retire w .shutdown .take)).next =
            x.next + x.mem.children.length := by
          simp [Tasks.World.spawn]
        rw [hnext]
        exact Nat.add_lt_add_left hlt x.next
      · rw [List.getElem?_map, hi]
        rfl

/- Once the tasks of `shutdown_all` are over, every worker is dead. -/
theorem Stopped.all_dead (hS : Stopped first last x)
    (hover : ∀ t, first ≤ t → t < last → (x.tasks t).any Pc.ended = true)
    (hst : x.mem.stateOf w = some st) : st = .dead := by
  rcases hS.idle w st hst with rfl | rfl
  · obtain ⟨t, hfirst, hlast, ht⟩ := hS.pending w hst
    have hended := hover t hfirst hlast
    rw [ht] at hended
    cases hended
  · rfl

/-! ### Killed workers -/

/-- Leased to a session, or being closed for one. -/
def ChildState.assigned : ChildState → Bool
  | .leased _ | .closing => true
  | .idle | .dead => false

/-- The slot whose `open_idb` has succeeded; its path is about to be stored. -/
def Pc.stores : Pc → Option WorkerId
  | .openStore _ h _ => some h.workerId
  | _ => none

/-- The worker has a session whose database it has opened. -/
def holdsDatabase (x : World) (w : WorkerId) : Bool :=
  (x.mem.slots w).any fun slot => slot.state.assigned &&
    (slot.idbPath.isSome || (List.range x.next).any fun t => (x.tasks t).bind Pc.stores = some w)

/-- The last request to the worker was to close the database and to save it, and nobody waits
for the answer any more. -/
def SavedFirst (x : World) (w : WorkerId) : Prop :=
  (∃ sessionId, x.mem.lastSent w = some (.closeIdb sessionId true)) ∧
    ∀ t h save, x.tasks t = some (.release h save .close) → h.workerId ≠ w

def Kills (x x' : World) (w : WorkerId) : Prop :=
  (∃ st, x.mem.stateOf w = some st ∧ st ≠ .dead) ∧ x'.mem.stateOf w = some .dead

theorem holdsDatabase_assigned (h : holdsDatabase x w = true) :
    ∃ st, x.mem.stateOf w = some st ∧ st.assigned = true := by
  obtain ⟨slot, hslot, hboth⟩ := (Option.any_eq_true _ _).mp h
  rw [Bool.and_eq_true] at hboth
  exact ⟨slot.state, stateOf_eq hslot, hboth.1⟩

/- A worker with a database is killed by a retirement. -/
theorem killed_by_retirement (h : step cfg x a = some x') (hkill : Kills x x' w)
    (hholds : holdsDatabase x w = true) :
    ∃ t o ctx, a = .advance t o ∧ x.tasks t = some (.retire w ctx .take) := by
  obtain ⟨⟨st, hst, hlive⟩, hdead⟩ := hkill
  have hsame : x'.mem.stateOf w ≠ x.mem.stateOf w := by
    rw [hdead, hst]
    intro he
    exact hlive (Option.some.inj he).symm
  rcases step_slot h w with ⟨hstate, -⟩ | ⟨t, o, pc, rfl, hpc, hc⟩
  · exact absurd hstate hsame
  · cases hc with
    | same state sent => exact absurd state hsame
    | called k hd caller timeout pc_eq worker before state => exact absurd state hsame
    | retired ctx pc_eq state sent =>
      subst pc_eq
      exact ⟨t, o, ctx, rfl, hpc⟩
    | reaped started pc_eq before state sent =>
      obtain ⟨st', hst', hassigned⟩ := holdsDatabase_assigned hholds
      rw [before] at hst'
      cases hst'
      cases hassigned
    | builtIdle _ state | builtLeased _ _ _ _ _ state | granted _ _ _ _ _ _ _ _ _ state _
    | closing _ _ _ _ _ state | recycled _ _ _ _ _ state _ =>
      rw [state] at hdead
      cases hdead

/- A release that retires its worker has sent `close_idb` and has its answer. -/
theorem release_saved {sessionId : String} {err : ToolError} (hC : CloseLast x)
    (hI : Inv cfg own x) (ht : x.tasks t = some (.retire w (.release sessionId true err) .take)) :
    SavedFirst x w := by
  refine ⟨⟨sessionId, hC t _ w _ ht rfl⟩, ?_⟩
  rintro u h save hu rfl
  have hown := (hI.good t _ ht).2.2.1.1
  have hown' := (hI.good u _ hu).2.2.1
  rw [hown] at hown'
  cases hown'
  rw [ht] at hu
  cases hu

end IdaHeadless.WorkerPool
