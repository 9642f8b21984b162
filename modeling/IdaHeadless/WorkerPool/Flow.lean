import IdaHeadless.WorkerPool.Slots

/-!
# Where a task goes next

`Flow p q` lists the edges of the tasks' control flow: a task resumed at `p` may
next wait at `q`. Facts about the awaits before or after a given one are read off
these edges by cases.
-/

namespace IdaHeadless.WorkerPool

/- The edges of one resumption; the edges to the end of a task are in `Ends`. -/
inductive Flow : Pc → Pc → Prop where
  | warmReserve (left id) : Flow (.warm (left + 1) .reserve) (.warm left (.spawn id))
  | warmSpawn (left id failed) : Flow (.warm left (.spawn id)) (.warm left (.install id failed))
  | warmInstall (left id) : Flow (.warm left (.install id none)) (.warm left .reserve)
  | leaseHeld (k τ h) : Flow (.lease k τ .handle) (.call k h (.openObserved false) τ .lock)
  | leaseInner (k τ) : Flow (.lease k τ .handle) (.lease k τ .inner)
  | scanFirst (k τ rest active deadIds) :
      Flow (.lease k τ .inner) (.lease k τ (.scan rest active deadIds))
  | scanNext (k τ w rest active active' deadIds deadIds') :
      Flow (.lease k τ (.scan (w :: rest) active deadIds))
        (.lease k τ (.scan rest active' deadIds'))
  | scanReserve₀ (k τ id) : Flow (.lease k τ .inner) (.lease k τ (.spawn id))
  | scanReserve (k τ w active deadIds id) :
      Flow (.lease k τ (.scan [w] active deadIds)) (.lease k τ (.spawn id))
  | scanGrant (k τ w rest active deadIds sessionId) :
      Flow (.lease k τ (.scan (w :: rest) active deadIds))
        (.call k ⟨sessionId, w⟩ (.openObserved true) τ .lock)
  | leaseSpawn (k τ id failed) : Flow (.lease k τ (.spawn id)) (.lease k τ (.install id failed))
  | leaseInstall (k τ id sessionId) :
      Flow (.lease k τ (.install id none)) (.call k ⟨sessionId, id⟩ (.openObserved true) τ .lock)
  | callLock (k h c τ) : Flow (.call k h c τ .lock) (.call k h c τ .child)
  | callSend (k h c τ) : Flow (.call k h c τ .child) (.call k h c τ .await)
  | callKill (k h c τ err) :
      Flow (.call k h c τ .await) (.retire h.workerId (.call k h.sessionId c err) .take)
  | callRefused (k h tool τ err) :
      Flow (.call k h (.dispatch tool) τ .child) (.dispatchClear k h false err)
  | callRetire (k h tool τ err) :
      Flow (.call k h (.dispatch tool) τ .await) (.dispatchClear k h true err)
  | callOpened (k h fresh τ path) :
      Flow (.call k h (.openObserved fresh) τ .await) (.openStore k h path)
  | callRelease (k h fresh τ stage) :
      Flow (.call k h (.openObserved fresh) τ stage) (.takeHandle k true false)
  | dispatchCall (k h tool τ) :
      Flow (.dispatchHandle k tool τ) (.call k h (.dispatch tool) τ .lock)
  | dispatchRetire (k h err) :
      Flow (.dispatchClear k h true err) (.retire h.workerId (.dispatch k h.sessionId err) .take)
  | taken (k save detached h) : Flow (.takeHandle k save detached) (.release h save .lock)
  | releaseLock (h save) : Flow (.release h save .lock) (.release h save .child)
  | releaseClose (h save) : Flow (.release h save .child) (.release h save .close)
  | releaseDead₁ (h save) : Flow (.release h save .child) (.release h save (.idleCheck .foundDead))
  | releaseFinal (h save) : Flow (.release h save .close) (.release h save .final)
  | releaseKill (h save err) :
      Flow (.release h save .close) (.retire h.workerId (.release h.sessionId save err) .take)
  | releaseDead₂ (h save) : Flow (.release h save .final) (.release h save (.idleCheck .foundDead))
  | releaseIdle (h save) : Flow (.release h save .final) (.release h save (.idleCheck .recycled))
  | retireTake (w ctx took) : Flow (.retire w ctx .take) (.retire w ctx (.forget took))
  | retireForget (w ctx) : Flow (.retire w ctx (.forget true)) (.retire w ctx .finish)
  | retireCheck (w ctx stage) (started : stage ≠ .take) :
      Flow (.retire w ctx stage) (.retire w ctx .check)
  | retireSpawn (w ctx id) : Flow (.retire w ctx .check) (.retire w ctx (.spawn id))
  | retireInstall (w ctx id failed) :
      Flow (.retire w ctx (.spawn id)) (.retire w ctx (.install id failed))
  | retiredClear (w k sessionId tool err stage) (started : stage ≠ .take) :
      Flow (.retire w (.call k sessionId (.dispatch tool) err) stage)
        (.dispatchClear k ⟨sessionId, w⟩ false err)
  | retiredRelease (w k sessionId fresh err stage) (started : stage ≠ .take) :
      Flow (.retire w (.call k sessionId (.openObserved fresh) err) stage)
        (.takeHandle k true false)
  | retiredCheck (w sessionId save err stage) (started : stage ≠ .take) :
      Flow (.retire w (.release sessionId save err) stage)
        (.release ⟨sessionId, w⟩ save (.idleCheck (.retired err)))
  | reap (w started started' stage stage') (next : stage' ≠ .spawned) :
      Flow (.reap w started stage) (.reap w started' stage')
  | unreserved (id) : Flow (.unreserve id true) (.retire id .reservation .take)

/- How a resumed task ends. -/
inductive Ends : Pc → Exit → Prop where
  | ok (pc) (other : ∀ h save stage, pc ≠ .release h save stage)
      (other' : ∀ w sessionId save err stage, pc ≠ .retire w (.release sessionId save err) stage) :
      Ends pc .ok
  | err (pc e) (other : ∀ h save stage, pc ≠ .release h save stage)
      (other' : ∀ w sessionId save err stage, pc ≠ .retire w (.release sessionId save err) stage) :
      Ends pc (.err e)
  | released (h save exit) : Ends (.release h save (.idleCheck exit)) (.released h.workerId exit)

/- The next point is the end of the task, or an edge away. -/
def Goes (p q : Pc) : Prop := Flow p q ∨ ∃ exit, q = .done exit ∧ Ends p exit

variable {cfg : Config} {s : Pool} {t : TaskId} {o : Outcome} {m : Move} {pc : Pc}

theorem warm_goes {left : ℕ} {stage : WarmStage} (hm : WarmMove s left stage o m) :
    Goes (.warm left stage) m.point := by
  cases hm with
  | serves => exact .inr ⟨_, rfl, .ok _ (by simp) (by simp)⟩
  | reserves left free => exact .inl (.warmReserve ..)
  | spawned left id => exact .inl (.warmSpawn ..)
  | spawnFailed left id started detail => exact .inl (.warmSpawn ..)
  | installed left id free => exact .inl (.warmInstall ..)
  | failed left id err free => exact .inr ⟨_, rfl, .err _ _ (by simp) (by simp)⟩

/- The scan goes on behind slot `w`, or ends there. -/
theorem scanNext_goes {s' : Pool} {k : SessionRef} {timeout active active' : ℕ} {w : WorkerId}
    {rest deadIds deadIds' : List WorkerId} :
    Goes (.lease k timeout (.scan (w :: rest) active deadIds))
      (scanNext cfg s' k timeout rest active' deadIds').point := by
  unfold scanNext
  split
  · exact .inl (.scanNext ..)
  · split
    · exact .inr ⟨_, rfl, .err _ _ (by simp) (by simp)⟩
    · exact .inl (.scanReserve ..)

theorem lease_goes {k : SessionRef} {timeout : ℕ} {stage : LeaseStage}
    (hm : LeaseMove cfg s t k timeout stage o m) : Goes (.lease k timeout stage) m.point := by
  cases hm with
  | held se h session free handle => exact .inl (.leaseHeld ..)
  | locked se session free handle => exact .inl (.leaseInner ..)
  | scans free =>
    unfold scanNext
    split
    · exact .inl (.scanFirst ..)
    · split
      · exact .inr ⟨_, rfl, .err _ _ (by simp) (by simp)⟩
      · exact .inl (.scanReserve₀ ..)
  | foundDead w rest active deadIds slot found dead => exact scanNext_goes
  | foundBusy w rest active deadIds slot found live busy => exact scanNext_goes
  | granted w rest active deadIds slot se found idle session => exact .inl (.scanGrant ..)
  | spawned id se session => exact .inl (.leaseSpawn ..)
  | spawnFailed id started detail => exact .inl (.leaseSpawn ..)
  | installed id se free session => exact .inl (.leaseInstall ..)
  | failed id err free => exact .inr ⟨_, rfl, .err _ _ (by simp) (by simp)⟩

/- `open_observed` with an error, from anywhere in its call. -/
theorem openErrPc_goes {k : SessionRef} {fresh : Bool} {err : ToolError} {p : Pc}
    (hflow : Flow p (.takeHandle k true false)) (hends : Ends p (.err err)) :
    Goes p (openErrPc k fresh err) := by
  unfold openErrPc
  split
  · exact .inl hflow
  · exact .inr ⟨_, rfl, hends⟩

theorem dispatchExit_ends {p : Pc} {err : Option ToolError}
    (hrelease : ∀ h save stage, p ≠ .release h save stage)
    (hretire : ∀ w sessionId save err stage, p ≠ .retire w (.release sessionId save err) stage) :
    Ends p (dispatchExit err) := by
  cases err with
  | none => exact .ok _ hrelease hretire
  | some e =>
    simp only [dispatchExit]
    split
    · exact .err _ _ hrelease hretire
    · exact .ok _ hrelease hretire

theorem call_goes {k : SessionRef} {h : Handle} {caller : Caller} {timeout : ℕ}
    {stage : CallStage} (hm : CallMove s t k h caller timeout stage o m) :
    Goes (.call k h caller timeout stage) m.point := by
  have hopen : ∀ fresh stage err, Goes (.call k h (.openObserved fresh) timeout stage)
      (openErrPc k fresh err) := by
    intro fresh stage err
    exact openErrPc_goes (.callRelease ..) (.err _ _ (by simp) (by simp))
  cases hm with
  | locked slot found free => exact .inl (.callLock ..)
  | sent slot found leased => exact .inl (.callSend ..)
  | refused slot found other =>
    cases caller with
    | dispatch tool => exact .inl (.callRefused ..)
    | openObserved fresh => exact hopen _ _ _
  | answered err info =>
    cases caller with
    | dispatch tool =>
      cases err with
      | none => exact .inr ⟨_, rfl, .ok _ (by simp) (by simp)⟩
      | some e =>
        simp only [callOkPc]
        split
        · exact .inl (.callRetire ..)
        · exact .inr ⟨_, rfl, dispatchExit_ends (by simp) (by simp)⟩
    | openObserved fresh =>
      cases err with
      | some e => exact hopen _ _ _
      | none =>
        cases info with
        | none => exact hopen _ _ _
        | some path => exact .inl (.callOpened ..)
  | crashed | timedOut | cancelled => exact .inl (.callKill ..)

theorem release_goes {h : Handle} {save : Bool} {stage : ReleaseStage}
    (hm : ReleaseMove s t h save stage o m) : Goes (.release h save stage) m.point := by
  cases hm with
  | locked slot found free => exact .inl (.releaseLock ..)
  | diedBefore slot found dead => exact .inl (.releaseDead₁ ..)
  | closing slot found live => exact .inl (.releaseClose ..)
  | closed a ok => exact .inl (.releaseFinal ..)
  | closeFailed a err failed => exact .inl (.releaseKill ..)
  | diedAfter slot found dead => exact .inl (.releaseDead₂ ..)
  | recycled slot found live => exact .inl (.releaseIdle ..)
  | ended exit slot found => exact .inr ⟨_, rfl, .released ..⟩

theorem retireDone_goes {s' : Pool} {w : WorkerId} {ctx : RetireCtx} {stage : RetireStage}
    (hstage : stage ≠ .take) : Goes (.retire w ctx stage) (retireDone s' w ctx).point := by
  cases ctx with
  | guard | reservation | shutdown => exact .inr ⟨_, rfl, .ok _ (by simp) (by simp)⟩
  | call k sessionId caller err =>
    cases caller with
    | dispatch tool => exact .inl (.retiredClear _ _ _ _ _ _ hstage)
    | openObserved fresh =>
      exact openErrPc_goes (.retiredRelease _ _ _ _ _ _ hstage) (.err _ _ (by simp) (by simp))
  | release sessionId save err => exact .inl (.retiredCheck _ _ _ _ _ hstage)
  | dispatch k sessionId err => exact .inr ⟨_, rfl, dispatchExit_ends (by simp) (by simp)⟩

theorem retireReplenish_goes {s' : Pool} {w : WorkerId} {ctx : RetireCtx} {stage : RetireStage}
    (hstage : stage ≠ .take) : Goes (.retire w ctx stage) (retireReplenish s' w ctx).point := by
  unfold retireReplenish
  split
  · exact .inl (.retireCheck _ _ _ hstage)
  · exact retireDone_goes hstage

theorem retire_goes {w : WorkerId} {ctx : RetireCtx} {stage : RetireStage}
    (hm : RetireMove cfg s w ctx stage o m) : Goes (.retire w ctx stage) m.point := by
  cases hm with
  | wasDead slot found dead => exact .inl (.retireTake ..)
  | killed slot found live => exact .inl (.retireTake ..)
  | forgotten free => exact .inl (.retireForget ..)
  | forgottenDead free => exact retireReplenish_goes (by simp)
  | finished => exact retireReplenish_goes (by simp)
  | enough satisfied => exact retireDone_goes (by simp)
  | reserves wanted free below room => exact .inl (.retireSpawn ..)
  | spawned id => exact .inl (.retireInstall ..)
  | spawnFailed id started detail => exact .inl (.retireInstall ..)
  | installed id free => exact .inl (.retireCheck _ _ _ (by simp))
  | failed id err free => exact retireDone_goes (by simp)

theorem reap_goes {w : WorkerId} {started : ℕ} {stage : ReapStage}
    (hm : ReapMove cfg s t w started stage o m) : Goes (.reap w started stage) m.point := by
  have hend : Goes (.reap w started stage) (.done .ok) := .inr ⟨_, rfl, .ok _ (by simp) (by simp)⟩
  have hcount : ∀ s' rest live, Goes (.reap w started stage)
      (countNext cfg s' w started rest live).point := by
    intro s' rest live
    unfold countNext
    split
    · exact .inl (.reap _ _ _ _ _ (by simp))
    · split
      · exact hend
      · exact .inl (.reap _ _ _ _ _ (by simp))
  cases hm with
  | never off => exact hend
  | kept slot found used => exact hend
  | finished => exact hend
  | counts free => exact hcount _ _ _
  | counted c rest live slot found => exact hcount _ _ _
  | sleeps | wakes | reaped | forgotten => exact .inl (.reap _ _ _ _ _ (by simp))

theorem single_goes (hm : SingleMove s pc m) : Goes pc m.point := by
  cases hm with
  | notOpen k tool timeout se session free handle =>
    exact .inr ⟨_, rfl, .err _ _ (by simp) (by simp)⟩
  | dispatched k tool timeout se h session free handle => exact .inl (.dispatchCall ..)
  | cleared k h retire err se session free =>
    cases retire with
    | true => exact .inl (.dispatchRetire ..)
    | false => exact .inr ⟨_, rfl, .err _ _ (by simp) (by simp)⟩
  | stored k h path slot found => exact .inr ⟨_, rfl, .ok _ (by simp) (by simp)⟩
  | nothingTaken k save detached se session free handle =>
    exact .inr ⟨_, rfl, .err _ _ (by simp) (by simp)⟩
  | taken k save detached se h session free handle => exact .inl (.taken ..)
  | unreserved id built free =>
    cases built with
    | true => exact .inl (.unreserved ..)
    | false => exact .inr ⟨_, rfl, .ok _ (by simp) (by simp)⟩

theorem advance_goes (hm : advance cfg s t o pc = some m) : Goes pc m.point := by
  cases advance_moves hm with
  | warm left stage move => exact warm_goes move
  | lease k timeout stage move => exact lease_goes move
  | call k h caller timeout stage move => exact call_goes move
  | release h save stage move => exact release_goes move
  | retire w ctx stage move => exact retire_goes move
  | reap w started stage move => exact reap_goes move
  | single outcome move => exact single_goes move

/- A resumed task spawns nothing but the idle reap of its own release. -/
theorem advance_spawned {p : Pc} (hm : advance cfg s t o pc = some m) (hp : p ∈ m.spawned) :
    ∃ h save exit, pc = .release h save (.idleCheck exit) ∧ p = .reap h.workerId 0 .spawned := by
  have hnil : m.spawned ≠ [] := List.ne_nil_of_mem hp
  cases advance_moves hm with
  | release h save stage move =>
    cases move with
    | ended exit slot found =>
      refine ⟨h, save, exit, rfl, ?_⟩
      dsimp only at hp
      split at hp
      · exact List.mem_singleton.mp hp
      · cases hp
    | _ => exact absurd rfl hnil
  | lease k timeout stage move =>
    have hscan : ∀ s' rest active deadIds,
        (scanNext cfg s' k timeout rest active deadIds).spawned = [] := by
      intro s' rest active deadIds
      unfold scanNext
      split
      · rfl
      · split <;> rfl
    cases move with
    | scans | foundDead | foundBusy => exact absurd (hscan _ _ _ _) hnil
    | _ => exact absurd rfl hnil
  | retire w ctx stage move =>
    have hreplenish : ∀ s', (retireReplenish s' w ctx).spawned = [] := by
      intro s'
      unfold retireReplenish
      split <;> rfl
    cases move with
    | forgottenDead | finished => exact absurd (hreplenish _) hnil
    | _ => exact absurd rfl hnil
  | reap w started stage move =>
    have hcount : ∀ s' rest live, (countNext cfg s' w started rest live).spawned = [] := by
      intro s' rest live
      unfold countNext
      split
      · rfl
      · split <;> rfl
    cases move with
    | counts | counted => exact absurd (hcount _ _ _) hnil
    | _ => exact absurd rfl hnil
  | warm left stage move => cases move <;> exact absurd rfl hnil
  | call k h caller timeout stage move => cases move <;> exact absurd rfl hnil
  | single outcome move => cases move <;> exact absurd rfl hnil

def Pc.ended : Pc → Bool
  | .done _ => true
  | _ => false

theorem ended_iff : pc.ended = true ↔ ∃ exit, pc = .done exit := by
  cases pc <;> simp [Pc.ended]

/-! ### Dropped futures -/

/- The tasks that a dropped future leaves behind: those of its armed guard and of
its reservation. -/
inductive Drops (t : TaskId) : Pc → Pc → Prop where
  | call (k h c τ) :
      Drops t (.call k h c τ .await) (.retire h.workerId (.guard t h.sessionId) .take)
  | release (h save stage) (unfinished : ∀ exit, stage ≠ .idleCheck exit) :
      Drops t (.release h save stage) (.retire h.workerId (.guard t h.sessionId) .take)
  | retireCall (w k sessionId c err stage) :
      Drops t (.retire w (.call k sessionId c err) stage) (.retire w (.guard t sessionId) .take)
  | retireRelease (w sessionId save err stage) :
      Drops t (.retire w (.release sessionId save err) stage)
        (.retire w (.guard t sessionId) .take)
  | spawn (pc id) (held : (∃ k τ, pc = .lease k τ (.spawn id)) ∨
      ∃ w ctx, pc = .retire w ctx (.spawn id)) : Drops t pc (.unreserve id false)
  | install (pc id failed) (held : (∃ k τ, pc = .lease k τ (.install id failed)) ∨
      ∃ w ctx, pc = .retire w ctx (.install id failed)) : Drops t pc (.unreserve id failed.isNone)

theorem reservationDrop_drops {w : WorkerId} {ctx : RetireCtx} {stage : RetireStage} {p : Pc}
    (hp : p ∈ reservationDrop stage) : Drops t (.retire w ctx stage) p := by
  cases stage with
  | spawn id =>
    rw [List.mem_singleton.mp hp]
    exact .spawn _ _ (.inr ⟨_, _, rfl⟩)
  | install id failed =>
    rw [List.mem_singleton.mp hp]
    exact .install _ _ _ (.inr ⟨_, _, rfl⟩)
  | take | forget _ | finish | check => cases hp

theorem dropTask_spawned {p : Pc} (hm : dropTask s t pc = some m) (hp : p ∈ m.spawned) :
    Drops t pc p := by
  cases pc with
  | lease k timeout stage =>
    cases stage with
    | handle | inner | scan rest active deadIds =>
      cases hm
      cases hp
    | spawn id =>
      cases hm
      rw [List.mem_singleton.mp hp]
      exact .spawn _ _ (.inl ⟨_, _, rfl⟩)
    | install id failed =>
      cases hm
      rw [List.mem_singleton.mp hp]
      exact .install _ _ _ (.inl ⟨_, _, rfl⟩)
  | call k h caller timeout stage =>
    cases stage with
    | lock | child =>
      cases hm
      cases hp
    | await =>
      cases hm
      rw [List.mem_singleton.mp hp]
      exact .call ..
  | release h save stage =>
    cases stage with
    | lock | child | close | final =>
      cases hm
      rw [List.mem_singleton.mp hp]
      exact .release _ _ _ (by simp)
    | idleCheck exit =>
      cases hm
      cases hp
  | retire w ctx stage =>
    cases ctx with
    | call k sessionId c err =>
      cases hm
      rcases List.mem_cons.mp hp with rfl | hp
      · exact .retireCall ..
      · exact reservationDrop_drops hp
    | release sessionId save err =>
      cases hm
      rcases List.mem_cons.mp hp with rfl | hp
      · exact .retireRelease ..
      · exact reservationDrop_drops hp
    | dispatch k sessionId err =>
      cases hm
      exact reservationDrop_drops hp
    | guard | reservation | shutdown => cases hm
  | dispatchHandle | dispatchClear | openStore =>
    cases hm
    cases hp
  | takeHandle k save detached =>
    cases detached with
    | false =>
      cases hm
      cases hp
    | true => cases hm
  | done | warm | reap | unreserve => cases hm

theorem dropTask_point (hm : dropTask s t pc = some m) : ∃ exit, m.point = .done exit := by
  unfold dropTask at hm
  split at hm <;> cases hm <;> exact ⟨_, rfl⟩

/-! ### Every step -/

/- The tasks that action `a` starts in world `x`. -/
inductive Starts (cfg : Config) (x : World) : Act → Pc → Prop where
  | openObserved (k secs) :
      Starts cfg x (.openObserved k secs) (.lease k (cfg.opTimeout secs) .handle)
  | callTool (k tool secs) :
      Starts cfg x (.callTool k tool secs) (.dispatchHandle k tool (cfg.opTimeout secs))
  | closeWithSave (k save) : Starts cfg x (.closeWithSave k save) (.takeHandle k save false)
  | dropSession (k) : Starts cfg x (.dropSession k) (.takeHandle k true true)
  | shutdownAll (w) (child : w ∈ x.mem.children) :
      Starts cfg x .shutdownAll (.retire w .shutdown .take)
  | reap (t o h save exit) (pc_eq : x.tasks t = some (.release h save (.idleCheck exit))) :
      Starts cfg x (.advance t o) (.reap h.workerId 0 .spawned)
  | drops (t pc p) (pc_eq : x.tasks t = some pc) (left : Drops t pc p) : Starts cfg x (.drop t) p

/- Where task `u` waits after a step, `q`, and how it got there. -/
inductive TaskChange (cfg : Config) (x : World) (a : Act) (x' : World) (u : TaskId) (q : Pc) :
    Prop where
  | kept (before : x.tasks u = some q) (other : ¬ a.Moves u)
  | moved (o p m) (act : a = .advance u o) (before : x.tasks u = some p)
      (move : advance cfg x.mem u o p = some m) (point : q = m.point) (world : x' = x.resume u m)
  | dropped (p m) (act : a = .drop u) (before : x.tasks u = some p)
      (move : dropTask x.mem u p = some m) (point : q = m.point) (world : x' = x.resume u m)
  | started (before : x.next ≤ u) (start : Starts cfg x a q)

variable {x x' : World} {a : Act} {u : TaskId} {q : Pc}

theorem start_task {k : SessionRef} {p : Pc} (h : start x k p = some x')
    (hq : x'.tasks u = some q) : x.tasks u = some q ∨ (x.next ≤ u ∧ q = p) := by
  rw [start_mem h] at hq
  rcases Tasks.spawn_tasks hq with hold | ⟨i, rfl, hi⟩
  · exact .inl hold
  · exact .inr ⟨Nat.le_add_right _ _, List.mem_singleton.mp (List.mem_of_getElem? hi)⟩

theorem step_task (h : step cfg x a = some x') (hq : x'.tasks u = some q) :
    TaskChange cfg x a x' u q := by
  cases a with
  | newSession sessionId =>
    simp only [step] at h
    split at h <;> cases h
    exact .kept hq (by rintro (h | ⟨o, h⟩) <;> cases h)
  | openObserved k secs =>
    rcases start_task h hq with hold | ⟨hnew, rfl⟩
    · exact .kept hold (by rintro (h | ⟨o, h⟩) <;> cases h)
    · exact .started hnew (.openObserved ..)
  | callTool k tool secs =>
    rcases start_task h hq with hold | ⟨hnew, rfl⟩
    · exact .kept hold (by rintro (h | ⟨o, h⟩) <;> cases h)
    · exact .started hnew (.callTool ..)
  | closeWithSave k save =>
    rcases start_task h hq with hold | ⟨hnew, rfl⟩
    · exact .kept hold (by rintro (h | ⟨o, h⟩) <;> cases h)
    · exact .started hnew (.closeWithSave ..)
  | dropSession k =>
    simp only [step] at h
    split at h
    · cases h
    · split at h <;> cases h
      rcases Tasks.spawn_tasks hq with hold | ⟨i, rfl, hi⟩
      · exact .kept hold (by rintro (h | ⟨o, h⟩) <;> cases h)
      · rw [List.mem_singleton.mp (List.mem_of_getElem? hi)]
        exact .started (Nat.le_add_right _ _) (.dropSession ..)
  | shutdownAll =>
    simp only [step] at h
    split at h <;> cases h
    rcases Tasks.spawn_tasks hq with hold | ⟨i, rfl, hi⟩
    · exact .kept hold (by rintro (h | ⟨o, h⟩) <;> cases h)
    · obtain ⟨w, hw, rfl⟩ := List.mem_map.mp (List.mem_of_getElem? hi)
      exact .started (Nat.le_add_right _ _) (.shutdownAll w hw)
  | tick =>
    cases h
    exact .kept hq (by rintro (h | ⟨o, h⟩) <;> cases h)
  | advance t o =>
    obtain ⟨pc, m, hpc, hm, rfl⟩ := step_advance_iff.mp h
    rcases Tasks.resume_tasks hq with ⟨rfl, rfl⟩ | ⟨hne, hold⟩ | ⟨i, rfl, hi⟩
    · exact .moved o pc m rfl hpc hm rfl rfl
    · refine .kept hold ?_
      rintro (h | ⟨o, h⟩) <;> cases h
      exact hne rfl
    · obtain ⟨hd, save, exit, rfl, rfl⟩ := advance_spawned hm (List.mem_of_getElem? hi)
      exact .started (Nat.le_add_right _ _) (.reap _ _ _ _ _ hpc)
  | drop t =>
    obtain ⟨pc, m, hpc, hm, rfl⟩ := step_drop_iff.mp h
    rcases Tasks.resume_tasks hq with ⟨rfl, rfl⟩ | ⟨hne, hold⟩ | ⟨i, rfl, hi⟩
    · exact .dropped pc m rfl hpc hm rfl rfl
    · refine .kept hold ?_
      rintro (h | ⟨o, h⟩) <;> cases h
      exact hne rfl
    · exact .started (Nat.le_add_right _ _)
        (.drops t pc _ hpc (dropTask_spawned hm (List.mem_of_getElem? hi)))

/- A task that a step does not move waits where it waited. -/
theorem step_kept {own : Own} {p : Pc} (hI : Inv cfg own x) (h : step cfg x a = some x')
    (hp : x.tasks u = some p) (hu : ¬ a.Moves u) : x'.tasks u = some p := by
  have hlt := hI.lt_next hp
  have hspawn : ∀ ps, (Tasks.World.spawn x ps).tasks u = some p :=
    fun ps => (Tasks.spawn_old hlt).trans hp
  cases a with
  | newSession sessionId =>
    simp only [step] at h
    split at h <;> cases h
    exact hp
  | openObserved k secs | callTool k tool secs | closeWithSave k save =>
    rw [start_mem h]
    exact hspawn _
  | dropSession k =>
    simp only [step] at h
    split at h
    · cases h
    · split at h <;> cases h
      exact (Tasks.spawn_old hlt).trans hp
  | shutdownAll =>
    simp only [step] at h
    split at h <;> cases h
    exact hspawn _
  | tick =>
    cases h
    exact hp
  | advance t o =>
    obtain ⟨pc, m, hpc, hm, rfl⟩ := step_advance_iff.mp h
    have hne : u ≠ t := fun he => hu (.inr ⟨o, by rw [he]⟩)
    exact (Tasks.resume_other m hlt hne).trans hp
  | drop t =>
    obtain ⟨pc, m, hpc, hm, rfl⟩ := step_drop_iff.mp h
    have hne : u ≠ t := fun he => hu (.inl (by rw [he]))
    exact (Tasks.resume_other m hlt hne).trans hp

end IdaHeadless.WorkerPool
