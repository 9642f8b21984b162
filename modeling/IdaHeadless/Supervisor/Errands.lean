import IdaHeadless.Opening.Usable
import IdaHeadless.SessionManager.Closing
import IdaHeadless.Supervisor.Step

/-!
# What a close leaves behind

The manager and the pool are linked by numbers: a registered session by the session object
behind it, a waiting task by the future of the pool that it awaits. A lease for a session is
under way only while the `open` that made the session awaits it, so nothing gives a worker to
a session that is registered or was. When a `close` has its answer, its session has no worker,
and never has one again.
-/

namespace IdaHeadless.Supervisor

/-! ### What one step does -/

/-- Where a task goes on to, what is started for it, and what it then awaits. -/
inductive Follows (cfg : Config) (x : State) (t : SessionManager.TaskId) (p : SessionManager.Pc)
    (x' : State) : SessionManager.Pc → Prop where
  | opens (r : SessionManager.OpenSessionRequest) (path id : String)
      (pool : Runs.run (WorkerPool.step cfg.pool) x.pool
        [.newSession id, .openObserved x.pool.mem.nextSession (some 600)] = some x'.pool)
      (errand : x'.errand = Function.update x.errand t
        (some ⟨x.pool.mem.nextSession, some x.pool.next⟩))
      (worker : x'.worker = x.worker) : Follows cfg x t p x' (.openSession r (.opening path id))
  | stays (q : SessionManager.Pc) (pending : q.pending = true) (opened : q.opening = false)
      (pool : x'.pool = x.pool) (errand : x'.errand = Function.update x.errand t
        ((x.errand t).map fun e => { e with task := none }))
      (worker : x'.worker = x.worker) : Follows cfg x t p x' q
  | asks (q : SessionManager.Pc) (k : WorkerPool.SessionRef) (b : WorkerPool.Act)
      (asks : asks cfg x t q = some (k, b))
      (pool : WorkerPool.step cfg.pool x.pool b = some x'.pool)
      (errand : x'.errand = Function.update x.errand t (some ⟨k, some x.pool.next⟩))
      (worker : x'.worker = x.worker) : Follows cfg x t p x' q
  | ends (q : SessionManager.Pc) (asks : asks cfg x t q = none) (ended : q.pending = false)
      (pool : x'.pool = x.pool) (errand : x'.errand = Function.update x.errand t none)
      (worker : ∀ m, m ≠ x.manager.mem.next → x'.worker m = x.worker m)
      (new : ∀ e, p.inserts = true → x.errand t = some e →
        x'.worker x.manager.mem.next = e.session) : Follows cfg x t p x' q

/-- What an action of the pool alone comes from. -/
inductive Alone (x : State) : Act → WorkerPool.Act → Prop where
  | runs (b : WorkerPool.Act) (runs : runs x b = true) : Alone x (.pool b) b
  | dropSession (k : WorkerPool.SessionRef) : Alone x (.dropSession k) (.dropSession k)
  | shutdownAll : Alone x .shutdownAll .shutdownAll

inductive Change (cfg : Config) (x x' : State) : Act → Prop where
  | client (a : Act) (b : SessionManager.Act)
      (manager : SessionManager.step cfg.tools x.manager b = some x'.manager)
      (starts : ∀ t, ¬ b.Moves t) (other : ∀ b, ¬ Alone x a b) (pool : x'.pool = x.pool)
      (errand : x'.errand = x.errand) (worker : x'.worker = x.worker) : Change cfg x x' a
  | resume (t : SessionManager.TaskId) (o : SessionManager.Outcome) (p : SessionManager.Pc)
      (mv : SessionManager.Move) (task : x.manager.tasks t = some p) (ready : ready x t p o = true)
      (move : SessionManager.advance cfg.tools x.manager.mem t o p = some mv)
      (manager : x'.manager = x.manager.resume t mv)
      (follows : Follows cfg x t p x' mv.point) : Change cfg x x' (.resume t o)
  | probe (t : SessionManager.TaskId) (p : SessionManager.Pc) (e : Errand) (tool : String)
      (task : x.manager.tasks t = some p) (warms : warms p = true) (before : x.errand t = some e)
      (manager : x'.manager = x.manager)
      (pool : WorkerPool.step cfg.pool x.pool (.callTool e.session tool none) = some x'.pool)
      (errand : x'.errand = Function.update x.errand t (some ⟨e.session, some x.pool.next⟩))
      (worker : x'.worker = x.worker) : Change cfg x x' (.probe t)
  | drop (t : SessionManager.TaskId) (phase : x.phase.closer ≠ some t)
      (manager : SessionManager.step cfg.tools x.manager (.drop t) = some x'.manager)
      (pool : x'.pool = dropErrand cfg x t) (errand : x'.errand = Function.update x.errand t none)
      (worker : x'.worker = x.worker) : Change cfg x x' (.drop t)
  | pool (a : Act) (b : WorkerPool.Act) (alone : Alone x a b)
      (pool : WorkerPool.step cfg.pool x.pool b = some x'.pool) (manager : x'.manager = x.manager)
      (errand : x'.errand = x.errand) (worker : x'.worker = x.worker) : Change cfg x x' a

variable {cfg : Config} {x x' y : State} {a : Act} {t s : SessionManager.TaskId}
  {p q : SessionManager.Pc}

theorem not_alone (hpool : ∀ b, a ≠ .pool b) (hdrop : ∀ k, a ≠ .dropSession k)
    (hall : a ≠ .shutdownAll) (b : WorkerPool.Act) : ¬ Alone x a b := by
  intro h
  cases h with
  | runs b runs => exact hpool b rfl
  | dropSession k => exact hdrop k rfl
  | shutdownAll => exact hall rfl

theorem adopt_of_ne {m : SessionManager.SessionRef} (hm : m ≠ x.manager.mem.next) :
    adopt x t p m = x.worker m := by
  have hcases : adopt x t p = x.worker ∨
      ∃ k, adopt x t p = Function.update x.worker x.manager.mem.next k := by
    unfold adopt
    split
    · exact .inr ⟨_, rfl⟩
    · exact .inl rfl
  rcases hcases with hsame | ⟨k, hnew⟩
  · rw [hsame]
  · rw [hnew, Function.update_of_ne hm]

theorem adopt_new {e : Errand} (hinserts : p.inserts = true) (he : x.errand t = some e) :
    adopt x t p x.manager.mem.next = e.session := by
  unfold SessionManager.Pc.inserts at hinserts
  split at hinserts
  · unfold adopt
    rw [he]
    exact Function.update_self ..
  · cases hinserts

theorem follow_cases {manager : SessionManager.World}
    (h : follow cfg x manager t p q = some x') :
    x'.manager = manager ∧ Follows cfg x t p x' q := by
  unfold follow at h
  split at h
  · obtain ⟨pool, hpool, rfl⟩ := Option.map_eq_some_iff.mp h
    exact ⟨rfl, .opens _ _ _ hpool rfl rfl⟩
  · cases h
    exact ⟨rfl, .stays _ rfl rfl rfl rfl rfl⟩
  · cases h
    exact ⟨rfl, .stays _ rfl rfl rfl rfl rfl⟩
  · rename_i hopening hwarming hinsert
    split at h
    · rename_i k b hasks
      obtain ⟨pool, hpool, rfl⟩ := Option.map_eq_some_iff.mp h
      exact ⟨rfl, .asks _ k b hasks hpool rfl rfl⟩
    · rename_i hasks
      cases h
      refine ⟨rfl, .ends _ hasks ?_ rfl rfl (fun m hm => adopt_of_ne hm)
        fun e hinserts he => adopt_new hinserts he⟩
      unfold SessionManager.Pc.pending
      split
      · exact absurd rfl (hopening _ _ _)
      · exact absurd rfl (hwarming _ _ _)
      · exact absurd rfl (hinsert _ _ _ _)
      · rfl

theorem Follows.congr (h : Follows cfg x t p y q) (hpool : x'.pool = y.pool)
    (herrand : x'.errand = y.errand) (hworker : x'.worker = y.worker) : Follows cfg x t p x' q := by
  cases h with
  | opens r path id pool errand worker =>
    exact .opens r path id (by rw [hpool]; exact pool) (herrand.trans errand) (hworker.trans worker)
  | stays _ pending opened pool errand worker =>
    exact .stays _ pending opened (hpool.trans pool) (herrand.trans errand) (hworker.trans worker)
  | asks _ k b asks pool errand worker =>
    exact .asks _ k b asks (by rw [hpool]; exact pool) (herrand.trans errand) (hworker.trans worker)
  | ends _ asks ended pool errand worker new =>
    refine .ends _ asks ended (hpool.trans pool) (herrand.trans errand) ?_ ?_
    · rw [hworker]
      exact worker
    · rw [hworker]
      exact new

theorem managerStep_client {b : SessionManager.Act} (h : managerStep cfg x b = some y)
    (hmanager : x'.manager = y.manager) (hpool : x'.pool = y.pool) (herrand : x'.errand = y.errand)
    (hworker : x'.worker = y.worker) (hb : ∀ t, ¬ b.Moves t) (ha : ∀ b, ¬ Alone x a b) :
    Change cfg x x' a := by
  obtain ⟨manager, hm, rfl⟩ := Option.map_eq_some_iff.mp h
  exact .client a b (by rw [hmanager]; exact hm) hb ha hpool herrand hworker

theorem step_change (hI : SessionManager.Inv x.manager) (h : step cfg x a = some x') :
    Change cfg x x' a := by
  cases a with
  | openSession request buildCaches initHexrays =>
    simp only [step] at h
    obtain ⟨y, hy, rfl⟩ := Option.map_eq_some_iff.mp h
    refine managerStep_client hy rfl rfl rfl rfl (by simp [SessionManager.Act.Moves]) ?_
    exact not_alone (by simp) (by simp) (by simp)
  | call database tool timeoutSecs =>
    simp only [step] at h
    obtain ⟨y, hy, rfl⟩ := Option.map_eq_some_iff.mp h
    refine managerStep_client hy rfl rfl rfl rfl (by simp [SessionManager.Act.Moves]) ?_
    exact not_alone (by simp) (by simp) (by simp)
  | list | close _ _ | reapIdle | tick _ =>
    refine managerStep_client h rfl rfl rfl rfl (by simp [SessionManager.Act.Moves]) ?_
    exact not_alone (by simp) (by simp) (by simp)
  | shutdown =>
    simp only [step] at h
    split at h
    · obtain ⟨y, hy, rfl⟩ := Option.map_eq_some_iff.mp h
      refine managerStep_client hy rfl rfl rfl rfl (by simp [SessionManager.Act.Moves]) ?_
      exact not_alone (by simp) (by simp) (by simp)
    · cases h
  | resume t o =>
    simp only [step] at h
    obtain ⟨p, hp, h⟩ := Option.bind_eq_some_iff.mp h
    split at h
    · rename_i hready
      obtain ⟨manager, hm, h⟩ := Option.bind_eq_some_iff.mp h
      obtain ⟨q, hq, h⟩ := Option.bind_eq_some_iff.mp h
      obtain ⟨y, hy, rfl⟩ := Option.map_eq_some_iff.mp h
      obtain ⟨mv, hmv, rfl⟩ := SessionManager.step_advance_at hp hm
      rw [Tasks.resume_self mv (hI.lt_next hp)] at hq
      cases hq
      obtain ⟨hmanager, hfollows⟩ := follow_cases hy
      exact .resume t o p mv hp hready hmv hmanager (hfollows.congr rfl rfl rfl)
    · cases h
  | probe t =>
    simp only [step, probe] at h
    split at h
    · rename_i p e tool rest hp he hprobes
      split at h
      · rename_i hcond
        rw [Bool.and_eq_true] at hcond
        obtain ⟨pool, hpool, rfl⟩ := Option.map_eq_some_iff.mp h
        exact .probe t p e tool hp hcond.1 he rfl hpool rfl rfl
      · cases h
    · cases h
  | drop t =>
    simp only [step] at h
    split at h
    · cases h
    · rename_i hphase
      split at h
      · cases h
      · obtain ⟨manager, hm, rfl⟩ := Option.map_eq_some_iff.mp h
        exact .drop t hphase hm rfl rfl rfl
  | dropSession k =>
    simp only [step] at h
    split at h
    · cases h
    · obtain ⟨pool, hpool, rfl⟩ := Option.map_eq_some_iff.mp h
      exact .pool _ _ (.dropSession k) hpool rfl rfl rfl
  | pool b =>
    simp only [step] at h
    split at h
    · rename_i hruns
      obtain ⟨pool, hpool, rfl⟩ := Option.map_eq_some_iff.mp h
      exact .pool _ _ (.runs b hruns) hpool rfl rfl rfl
    · cases h
  | shutdownAll =>
    simp only [step] at h
    split at h
    · split at h
      · obtain ⟨pool, hpool, rfl⟩ := Option.map_eq_some_iff.mp h
        exact .pool _ _ .shutdownAll hpool rfl rfl rfl
      · cases h
    · cases h

/-! ### Leases under way -/

section Pool
variable {v v' : WorkerPool.World} {b : WorkerPool.Act} {u : WorkerPool.TaskId}
  {k : WorkerPool.SessionRef} {own : WorkerPool.Own}

/-- Task `u` is getting a worker for session `k`. -/
def Leases (v : WorkerPool.World) (u : WorkerPool.TaskId) (k : WorkerPool.SessionRef) : Prop :=
  ∃ timeout stage, v.tasks u = some (.lease k timeout stage)

theorem leases_before (h : WorkerPool.step cfg.pool v b = some v') (hl : Leases v' u k) :
    Leases v u k ∨ (v.next ≤ u ∧ ∃ secs, b = .openObserved k secs) := by
  obtain ⟨timeout, stage, hq⟩ := hl
  cases WorkerPool.step_task h hq with
  | kept before other => exact .inl ⟨timeout, stage, before⟩
  | moved o p m act before move point world =>
    rcases WorkerPool.advance_goes move with hf | ⟨exit, he, -⟩
    · rw [← point] at hf
      cases hf with
      | leaseInner | scanFirst | scanNext | scanReserve₀ | scanReserve | leaseSpawn =>
        exact .inl ⟨_, _, before⟩
    · rw [he] at point
      cases point
  | dropped p m act before move point world =>
    obtain ⟨exit, he⟩ := WorkerPool.dropTask_point move
    rw [he] at point
    cases point
  | started before start =>
    cases start with
    | openObserved _ secs => exact .inr ⟨before, secs, rfl⟩
    | drops t p q pc_eq left => cases left

/-- What the pool leaves alone of the sessions it has, whatever it does with the future
`dropped`. -/
structure Steady (dropped : Option WorkerPool.TaskId) (v v' : WorkerPool.World) : Prop where
  known : ∀ k, v.mem.idOf k ≠ none → v'.mem.idOf k ≠ none
  next : v.next ≤ v'.next
  leases : ∀ u k, v.mem.idOf k ≠ none → Leases v' u k → Leases v u k
  handle : ∀ k, (∀ u, ¬ Leases v u k) → v.mem.handleOf k = none → v'.mem.handleOf k = none
  taking : ∀ u k save, dropped ≠ some u → v.tasks u = some (.takeHandle k save false) →
    v'.tasks u = some (.takeHandle k save false) ∨ v'.mem.handleOf k = none

theorem Steady.refl (v : WorkerPool.World) (dropped : Option WorkerPool.TaskId) :
    Steady dropped v v :=
  ⟨fun _ h => h, le_rfl, fun _ _ _ h => h, fun _ _ h => h, fun _ _ _ _ h => .inl h⟩

/-- The future that an action drops. -/
def dropped : WorkerPool.Act → Option WorkerPool.TaskId
  | .drop u => some u
  | _ => none

theorem known_kept (hI : WorkerPool.Inv cfg.pool own v) (h : WorkerPool.step cfg.pool v b = some v')
    (hk : v.mem.idOf k ≠ none) : v'.mem.idOf k ≠ none := by
  obtain ⟨own', -, hages, -⟩ := WorkerPool.step_inv hI h
  obtain ⟨id, hid⟩ := Option.ne_none_iff_exists'.mp hk
  rw [hages.id k id hid]
  simp

theorem next_mono (h : WorkerPool.step cfg.pool v b = some v') : v.next ≤ v'.next := by
  have hspawn : ∀ w ps, (Tasks.World.spawn (M := WorkerPool.Pool) (P := WorkerPool.Pc) w ps).next =
      w.next + ps.length := fun w ps => rfl
  cases b with
  | newSession id =>
    simp only [WorkerPool.step] at h
    split at h <;> cases h
    exact le_rfl
  | tick =>
    cases h
    exact le_rfl
  | openObserved | callTool | closeWithSave =>
    rw [WorkerPool.start_mem h, hspawn]
    exact Nat.le_add_right _ _
  | dropSession j =>
    simp only [WorkerPool.step] at h
    split at h
    · cases h
    · split at h <;> cases h
      exact Nat.le_add_right _ _
  | shutdownAll =>
    simp only [WorkerPool.step] at h
    split at h <;> cases h
    exact Nat.le_add_right _ _
  | advance t o =>
    obtain ⟨p, m, -, -, rfl⟩ := WorkerPool.step_advance_iff.mp h
    exact Nat.le_add_right _ _
  | drop t =>
    obtain ⟨p, m, -, -, rfl⟩ := WorkerPool.step_drop_iff.mp h
    exact Nat.le_add_right _ _

/- Only a lease gives a worker to a session. -/
theorem handle_kept_none (hI : WorkerPool.Inv cfg.pool own v)
    (h : WorkerPool.step cfg.pool v b = some v') (hfree : ∀ u, ¬ Leases v u k)
    (hnone : v.mem.handleOf k = none) : v'.mem.handleOf k = none := by
  by_cases hadv : ∀ t o, b ≠ .advance t o
  · rw [WorkerPool.step_handle hI h hadv]
    exact hnone
  · push Not at hadv
    obtain ⟨t, o, rfl⟩ := hadv
    obtain ⟨p, m, hp, hm, rfl⟩ := WorkerPool.step_advance_iff.mp h
    rw [Tasks.resume_mem]
    cases WorkerPool.advance_session hm k with
    | same handle dropped => exact handle.trans hnone
    | stored timeout w sessionId pc_eq handle dropped =>
      exfalso
      rcases pc_eq with ⟨rest, active, deadIds, rfl⟩ | rfl
      · exact hfree t ⟨timeout, _, hp⟩
      · exact hfree t ⟨timeout, _, hp⟩
    | taken save detached hd pc_eq before next handle dropped => exact handle
    | cleared hd retire err pc_eq before next handle dropped => exact handle

/- `take_handle` leaves the session without a worker. -/
theorem taking_kept {save : Bool} (hI : WorkerPool.Inv cfg.pool own v)
    (h : WorkerPool.step cfg.pool v b = some v') (hb : dropped b ≠ some u)
    (hu : v.tasks u = some (.takeHandle k save false)) :
    v'.tasks u = some (.takeHandle k save false) ∨ v'.mem.handleOf k = none := by
  by_cases hmoves : b.Moves u
  · right
    rcases hmoves with rfl | ⟨o, rfl⟩
    · exact absurd rfl hb
    · obtain ⟨m, hm, rfl⟩ := WorkerPool.step_advance_at hu h
      rw [Tasks.resume_mem]
      cases WorkerPool.advance_moves hm with
      | single outcome move =>
        cases move with
        | nothingTaken _ _ _ se session free handle =>
          rw [WorkerPool.handleOf_eq session]
          exact handle
        | taken _ _ _ se hd session free handle =>
          rw [WorkerPool.handleOf_setSession, if_pos rfl]
  · exact .inl (WorkerPool.step_kept hI h hu hmoves)

theorem step_steady (hI : WorkerPool.Inv cfg.pool own v)
    (h : WorkerPool.step cfg.pool v b = some v')
    (hb : ∀ k secs, b ≠ .openObserved k secs) : Steady (dropped b) v v' where
  known _ hk := known_kept hI h hk
  next := next_mono h
  leases u k _ hl := by
    rcases leases_before h hl with hbefore | ⟨-, secs, he⟩
    · exact hbefore
    · exact absurd he (hb k secs)
  handle _ hfree hnone := handle_kept_none hI h hfree hnone
  taking _ _ _ hd hu := taking_kept hI h hd hu

/- A new session, and the lease for it. -/
theorem opens_steady {id : String} {secs : Option ℕ} (hI : WorkerPool.Inv cfg.pool own v)
    (hT : Opening.Touched v)
    (h : Runs.run (WorkerPool.step cfg.pool) v
      [.newSession id, .openObserved v.mem.nextSession secs] = some v') :
    Steady none v v' ∧ Opening.Touched v' ∧ v'.mem.idOf v.mem.nextSession ≠ none ∧
      v.next < v'.next ∧ ∀ u, Leases v' u v.mem.nextSession → u = v.next := by
  obtain ⟨v₁, h₁, h⟩ := Runs.run_cons_iff.mp h
  obtain ⟨v₂, h₂, h⟩ := Runs.run_cons_iff.mp h
  cases h
  obtain ⟨own₁, hI₁, -⟩ := WorkerPool.step_inv hI h₁
  have hnew : v.mem.idOf v.mem.nextSession = none := by
    by_contra hne
    have hsession : v.mem.sessions v.mem.nextSession ≠ none := by
      intro hnone
      rw [WorkerPool.Pool.idOf, hnone] at hne
      exact hne rfl
    exact Nat.lt_irrefl _ (hI.global.session_lt _ hsession)
  have hsteady : Steady none v v₁ := step_steady hI h₁ (by simp)
  have hfree : ∀ u, ¬ Leases v₁ u v.mem.nextSession := by
    intro u hl
    rcases leases_before h₁ hl with ⟨timeout, stage, hu⟩ | ⟨-, secs, he⟩
    · exact hT u _ _ hu rfl hnew
    · cases he
  have hnext : v₁.next = v.next := by
    simp only [WorkerPool.step] at h₁
    split at h₁ <;> cases h₁
    rfl
  have hspawn := WorkerPool.start_mem h₂
  have htouched : Opening.Touched v' := Opening.touched_step (Opening.touched_step hT hI h₁) hI₁ h₂
  refine ⟨⟨?_, ?_, ?_, ?_, ?_⟩, htouched, ?_, ?_, ?_⟩
  · intro k hk
    exact known_kept hI₁ h₂ (hsteady.known k hk)
  · exact hsteady.next.trans (next_mono h₂)
  · intro u k hk hl
    rcases leases_before h₂ hl with hbefore | ⟨-, secs', he⟩
    · exact hsteady.leases u k hk hbefore
    · cases he
      exact absurd hnew hk
  · intro k hno hnone
    refine handle_kept_none hI₁ h₂ ?_ (hsteady.handle k hno hnone)
    intro u hl
    rcases leases_before h₁ hl with hbefore | ⟨-, secs', he⟩
    · exact hno u hbefore
    · cases he
  · intro u k save hd hu
    rcases hsteady.taking u k save hd hu with hkept | hnone
    · exact taking_kept hI₁ h₂ hd hkept
    · right
      rw [WorkerPool.step_handle hI₁ h₂ (by simp)]
      exact hnone
  · have hlease : v'.tasks (v₁.next + 0) =
        some (.lease v.mem.nextSession (cfg.pool.opTimeout secs) .handle) := by
      rw [hspawn]
      exact Tasks.spawn_new rfl
    exact htouched _ _ _ hlease rfl
  · rw [hspawn, ← hnext]
    exact Nat.lt_succ_self _
  · rintro u ⟨timeout, stage, hu⟩
    rw [hspawn] at hu
    rcases Tasks.spawn_tasks hu with hold | ⟨i, rfl, hi⟩
    · exact absurd ⟨timeout, stage, hold⟩ (hfree u)
    · have hzero : i = 0 := by
        have hlt := (List.getElem?_eq_some_iff.mp hi).1
        simpa using hlt
      rw [hzero, hnext]
      rfl

end Pool

/-! ### The links -/

/-- The session that an `open` has made and not yet registered. -/
def Pending (x : State) (t : SessionManager.TaskId) (p : SessionManager.Pc) : Prop :=
  ∃ e, x.errand t = some e ∧ x.pool.mem.idOf e.session ≠ none ∧
    ∀ u, Leases x.pool u e.session → e.task = some u ∧ p.opening = true

/-- The `close_with_save` that a `close` awaits. -/
def Emptying (x : State) (t : SessionManager.TaskId) (save : Bool) (m : SessionManager.SessionRef) :
    Prop :=
  ∃ u, x.errand t = some ⟨x.worker m, some u⟩ ∧
    (x.pool.tasks u = some (.takeHandle (x.worker m) save false) ∨
      x.pool.mem.handleOf (x.worker m) = none)

def taskOf (x : State) (t : SessionManager.TaskId) : Option WorkerPool.TaskId :=
  (x.errand t).bind Errand.task

structure Linked (x : State) : Prop where
  touched : Opening.Touched x.pool
  known : ∀ m < x.manager.mem.next, x.pool.mem.idOf (x.worker m) ≠ none
  free : ∀ u, ∀ m < x.manager.mem.next, ¬ Leases x.pool u (x.worker m)
  task_lt : ∀ t u, taskOf x t = some u → u < x.pool.next
  task_inj : ∀ t s u, taskOf x t = some u → taskOf x s = some u → t = s
  pending : ∀ t p, x.manager.tasks t = some p → p.pending = true → Pending x t p
  closing : ∀ t database save closer m,
    x.manager.tasks t = some (.close database save closer (.closing m)) → Emptying x t save m

/-- The tasks that `Linked` is about. -/
def awaits : SessionManager.Pc → Bool
  | .close _ _ _ (.closing _) => true
  | p => p.pending

theorem awaits_of_pending (hp : p.pending = true) : awaits p = true := by
  unfold awaits
  split
  · rfl
  · exact hp

/- The other tasks of the manager are where they were. -/
theorem manager_task {w w' : SessionManager.World} {b : SessionManager.Act}
    (hI : SessionManager.Inv w) (h : SessionManager.step cfg.tools w b = some w')
    (hb : ¬ b.Moves s) (hq : w'.tasks s = some q) (hawaits : awaits q = true) :
    w.tasks s = some q := by
  have hspawn : ∀ pc, awaits pc = false → (w.spawn [pc]).tasks s = some q → w.tasks s = some q := by
    intro pc hpc hs
    rcases Tasks.spawn_tasks hs with hold | ⟨i, -, hi⟩
    · exact hold
    · rw [List.mem_singleton.mp (List.mem_of_getElem? hi), hpc] at hawaits
      cases hawaits
  have hresume : ∀ t mv, SessionManager.Sound t w.mem mv → s ≠ t →
      (w.resume t mv).tasks s = some q → w.tasks s = some q := by
    intro t mv hsound hst hs
    rcases Tasks.resume_tasks hs with ⟨hs, -⟩ | ⟨-, hold⟩ | ⟨i, -, hi⟩
    · exact absurd hs hst
    · exact hold
    · rw [hsound.spawned] at hi
      cases hi
  cases b with
  | openSession r =>
    simp only [SessionManager.step] at h
    split at h
    · cases h
      exact hspawn _ rfl hq
    · cases h
      exact hspawn _ rfl hq
  | list | close _ _ | call _ _ | reapIdle | shutdown =>
    cases h
    exact hspawn _ rfl hq
  | tick nanos =>
    cases h
    exact hq
  | advance t o =>
    obtain ⟨p, mv, hp, hm, rfl⟩ := SessionManager.step_advance_iff.mp h
    refine hresume t mv (SessionManager.advance_sound hI.global (hI.good t p hp) hm) ?_ hq
    rintro rfl
    exact hb (.inr ⟨o, rfl⟩)
  | drop t =>
    obtain ⟨p, mv, hp, hm, rfl⟩ := SessionManager.step_drop_iff.mp h
    refine hresume t mv (SessionManager.dropTask_sound hI.global (hI.good t p hp) hm) ?_ hq
    rintro rfl
    exact hb (.inl rfl)

theorem Pending.kept {d : Option WorkerPool.TaskId} (hP : Pending x s p)
    (hS : Steady d x.pool x'.pool) (he : x'.errand s = x.errand s) : Pending x' s p := by
  obtain ⟨e, herrand, hknown, hleases⟩ := hP
  refine ⟨e, he.trans herrand, hS.known _ hknown, fun u hl => ?_⟩
  exact hleases u (hS.leases u _ hknown hl)

theorem Emptying.kept {d : Option WorkerPool.TaskId} {save : Bool} {m : SessionManager.SessionRef}
    (hE : Emptying x s save m) (hS : Steady d x.pool x'.pool) (he : x'.errand s = x.errand s)
    (hw : x'.worker m = x.worker m) (hd : ∀ u, taskOf x s = some u → d ≠ some u)
    (hfree : ∀ u, ¬ Leases x.pool u (x.worker m)) : Emptying x' s save m := by
  obtain ⟨u, herrand, hu⟩ := hE
  refine ⟨u, by rw [he, herrand, hw], ?_⟩
  rw [hw]
  rcases hu with htaking | hnone
  · exact hS.taking u _ save (hd u (by rw [taskOf, herrand]; rfl)) htaking
  · exact .inr (hS.handle _ hfree hnone)

/- A session that a task closes has been registered. -/
theorem closing_lt {database : String} {save : Bool} {closer : SessionManager.Closer}
    {m : SessionManager.SessionRef} (hI : SessionManager.Inv x.manager)
    (ht : x.manager.tasks t = some (.close database save closer (.closing m))) :
    m < x.manager.mem.next := by
  obtain ⟨se, hse, -⟩ := (hI.good t _ ht).locks m rfl
  exact hI.global.lt_next m (by rw [hse]; simp)

section Step
variable {d : Option WorkerPool.TaskId} {own : WorkerPool.Own}

/- What is behind the registered sessions, where none was added. -/
theorem Linked.workers (hL : Linked x) (hS : Steady d x.pool x'.pool)
    (hnext : x'.manager.mem.next = x.manager.mem.next)
    (hworker : ∀ m < x.manager.mem.next, x'.worker m = x.worker m) :
    ∀ m < x'.manager.mem.next, x'.pool.mem.idOf (x'.worker m) ≠ none ∧
      ∀ u, ¬ Leases x'.pool u (x'.worker m) := by
  intro m hm
  rw [hnext] at hm
  rw [hworker m hm]
  exact ⟨hS.known _ (hL.known m hm), fun u hl => hL.free u m hm (hS.leases u _ (hL.known m hm) hl)⟩

/- One task at most has moved, and has started one future at most. -/
theorem Linked.kept (moved : Option SessionManager.TaskId) (hL : Linked x)
    (hI : SessionManager.Inv x.manager) (hS : Steady d x.pool x'.pool)
    (htouched : Opening.Touched x'.pool)
    (hworkers : ∀ m < x'.manager.mem.next, x'.pool.mem.idOf (x'.worker m) ≠ none ∧
      ∀ u, ¬ Leases x'.pool u (x'.worker m))
    (hworker : ∀ m < x.manager.mem.next, x'.worker m = x.worker m)
    (hothers : ∀ s, moved ≠ some s → x'.errand s = x.errand s)
    (hfresh : ∀ t u, moved = some t → taskOf x' t = some u →
      u = x.pool.next ∧ x.pool.next < x'.pool.next)
    (hdropped : ∀ s u, moved ≠ some s → taskOf x s = some u → d ≠ some u)
    (htasks : ∀ s p, moved ≠ some s → x'.manager.tasks s = some p → awaits p = true →
      x.manager.tasks s = some p)
    (hpending : ∀ t p, moved = some t → x'.manager.tasks t = some p → p.pending = true →
      Pending x' t p)
    (hclosing : ∀ t database save closer m, moved = some t →
      x'.manager.tasks t = some (.close database save closer (.closing m)) → Emptying x' t save m) :
    Linked x' := by
  have hold : ∀ s u, moved ≠ some s → taskOf x' s = some u → taskOf x s = some u := by
    intro s u hs hu
    rw [taskOf, hothers s hs] at hu
    exact hu
  refine ⟨htouched, fun m hm => (hworkers m hm).1, fun u m hm => (hworkers m hm).2 u, ?_, ?_, ?_,
    ?_⟩
  · intro t u hu
    by_cases ht : moved = some t
    · obtain ⟨rfl, hlt⟩ := hfresh t u ht hu
      exact hlt
    · exact Nat.lt_of_lt_of_le (hL.task_lt t u (hold t u ht hu)) hS.next
  · intro t s u ht hs
    by_cases hmt : moved = some t
    · by_cases hms : moved = some s
      · rw [hmt] at hms
        exact Option.some.inj hms
      · -- the new future is none of those that were there
        obtain ⟨rfl, -⟩ := hfresh t u hmt ht
        exact absurd (hL.task_lt s _ (hold s _ hms hs)) (Nat.lt_irrefl _)
    · by_cases hms : moved = some s
      · obtain ⟨rfl, -⟩ := hfresh s u hms hs
        exact absurd (hL.task_lt t _ (hold t _ hmt ht)) (Nat.lt_irrefl _)
      · exact hL.task_inj t s u (hold t u hmt ht) (hold s u hms hs)
  · intro t p ht hp
    by_cases hmt : moved = some t
    · exact hpending t p hmt ht hp
    · exact (hL.pending t p (htasks t p hmt ht (awaits_of_pending hp)) hp).kept hS (hothers t hmt)
  · intro t database save closer m ht
    by_cases hmt : moved = some t
    · exact hclosing t database save closer m hmt ht
    · have hbefore := htasks t _ hmt ht rfl
      have hlt := closing_lt hI hbefore
      exact (hL.closing t database save closer m hbefore).kept hS (hothers t hmt) (hworker m hlt)
        (fun u hu => hdropped t u hmt hu) fun u => hL.free u m hlt

theorem asks_pending (hq : q.pending = true) : asks cfg x t q = none := by
  unfold SessionManager.Pc.pending at hq
  split at hq
  · rfl
  · rfl
  · rfl
  · cases hq

/-- An operation on a session that is alive. -/
def Operation (b : WorkerPool.Act) : Prop :=
  (∃ k tool secs, b = .callTool k tool secs) ∨ ∃ k save, b = .closeWithSave k save

theorem asks_operation {k : WorkerPool.SessionRef} {b : WorkerPool.Act}
    (h : asks cfg x t p = some (k, b)) : Operation b := by
  unfold asks at h
  split at h
  · cases h
    exact .inr ⟨_, _, rfl⟩
  · cases h
    exact .inr ⟨_, _, rfl⟩
  · cases h
    exact .inr ⟨_, _, rfl⟩
  · cases h
    exact .inr ⟨_, _, rfl⟩
  · obtain ⟨name, -, he⟩ := Option.map_eq_some_iff.mp h
    cases he
    exact .inl ⟨_, _, _, rfl⟩
  · cases h

theorem operation_steady {b : WorkerPool.Act} (hP : WorkerPool.Inv cfg.pool own x.pool)
    (hb : Operation b) (h : WorkerPool.step cfg.pool x.pool b = some x'.pool) :
    Steady none x.pool x'.pool ∧ x.pool.next < x'.pool.next := by
  rcases hb with ⟨k, tool, secs, rfl⟩ | ⟨k, save, rfl⟩
  · refine ⟨step_steady hP h (by simp), ?_⟩
    rw [WorkerPool.start_mem h]
    exact Nat.lt_succ_self _
  · refine ⟨step_steady hP h (by simp), ?_⟩
    rw [WorkerPool.start_mem h]
    exact Nat.lt_succ_self _

/- A future that is still leasing a worker is not over. -/
theorem not_ready {e : Errand} {u : WorkerPool.TaskId} {k : WorkerPool.SessionRef}
    {o : SessionManager.Outcome} (he : x.errand t = some e) (hu : e.task = some u)
    (hl : Leases x.pool u k) : ready x t p o = false := by
  obtain ⟨timeout, stage, htask⟩ := hl
  unfold ready
  simp only [he, hu, Option.map_some, htask]

/-- Task `t` has come to `q`, and no other has moved. -/
structure Moved (x x' : State) (t : SessionManager.TaskId) (q : SessionManager.Pc) : Prop where
  self : x'.manager.tasks t = some q
  tasks : ∀ s r, some t ≠ some s → x'.manager.tasks s = some r → awaits r = true →
    x.manager.tasks s = some r

theorem errand_others {e : Option Errand} (he : x'.errand = Function.update x.errand t e)
    (s : SessionManager.TaskId) (hs : some t ≠ some s) : x'.errand s = x.errand s := by
  rw [he, Function.update_of_ne]
  rintro rfl
  exact hs rfl

theorem taskOf_update {e : Option Errand} (he : x'.errand = Function.update x.errand t e) :
    taskOf x' t = e.bind Errand.task := by
  rw [taskOf, he, Function.update_self]

theorem opens_linked {r : SessionManager.OpenSessionRequest} {path id : String} (hL : Linked x)
    (hI : SessionManager.Inv x.manager) (hP : WorkerPool.Inv cfg.pool own x.pool)
    (hM : Moved x x' t (.openSession r (.opening path id)))
    (hnext : x'.manager.mem.next = x.manager.mem.next)
    (hpool : Runs.run (WorkerPool.step cfg.pool) x.pool
      [.newSession id, .openObserved x.pool.mem.nextSession (some 600)] = some x'.pool)
    (herrand : x'.errand = Function.update x.errand t
      (some ⟨x.pool.mem.nextSession, some x.pool.next⟩))
    (hworker : x'.worker = x.worker) : Linked x' := by
  obtain ⟨hS, htouched, hknown, hlt, hnew⟩ := opens_steady hP hL.touched hpool
  have hworker' : ∀ m < x.manager.mem.next, x'.worker m = x.worker m := fun m _ => by rw [hworker]
  refine Linked.kept (some t) hL hI hS htouched (hL.workers hS hnext hworker') hworker'
    (errand_others herrand) ?_ (by simp) hM.tasks ?_ ?_
  · intro t' u ht hu
    cases ht
    rw [taskOf_update herrand] at hu
    cases hu
    exact ⟨rfl, hlt⟩
  · intro t' q ht hq hpending
    cases ht
    rw [hM.self] at hq
    cases hq
    refine ⟨_, by rw [herrand, Function.update_self], hknown, fun u hl => ?_⟩
    rw [hnew u hl]
    exact ⟨rfl, rfl⟩
  · intro t' database save closer m ht hq
    cases ht
    rw [hM.self] at hq
    cases hq

theorem stays_linked {o : SessionManager.Outcome} (hL : Linked x)
    (hI : SessionManager.Inv x.manager)
    (hM : Moved x x' t q) (hnext : x'.manager.mem.next = x.manager.mem.next)
    (htask : x.manager.tasks t = some p) (hready : ready x t p o = true)
    (hp : p.pending = true) (hq : q.pending = true) (hpool : x'.pool = x.pool)
    (herrand : x'.errand = Function.update x.errand t
      ((x.errand t).map fun e => { e with task := none }))
    (hworker : x'.worker = x.worker) : Linked x' := by
  obtain ⟨e, he, hknown, hleases⟩ := hL.pending t p htask hp
  have hS : Steady none x.pool x'.pool := by
    rw [hpool]
    exact Steady.refl _ _
  have hworker' : ∀ m < x.manager.mem.next, x'.worker m = x.worker m := fun m _ => by rw [hworker]
  rw [he, Option.map_some] at herrand
  refine Linked.kept (some t) hL hI hS (by rw [hpool]; exact hL.touched)
    (hL.workers hS hnext hworker') hworker' (errand_others herrand) ?_ (by simp) hM.tasks ?_ ?_
  · intro t' u ht hu
    cases ht
    rw [taskOf_update herrand] at hu
    cases hu
  · intro t' q' ht hq' hpending
    cases ht
    refine ⟨⟨e.session, none⟩, by rw [herrand, Function.update_self], hS.known _ hknown,
      fun u hl => ?_⟩
    -- the future of the lease would not be over
    rw [hpool] at hl
    rw [not_ready he (hleases u hl).1 hl] at hready
    cases hready
  · intro t' database save closer m ht hq'
    cases ht
    rw [hM.self] at hq'
    cases hq'
    cases hq

theorem asks_linked {k : WorkerPool.SessionRef} {b : WorkerPool.Act} (hL : Linked x)
    (hI : SessionManager.Inv x.manager) (hP : WorkerPool.Inv cfg.pool own x.pool)
    (hM : Moved x x' t q) (hnext : x'.manager.mem.next = x.manager.mem.next)
    (hasks : asks cfg x t q = some (k, b))
    (hpool : WorkerPool.step cfg.pool x.pool b = some x'.pool)
    (herrand : x'.errand = Function.update x.errand t (some ⟨k, some x.pool.next⟩))
    (hworker : x'.worker = x.worker) : Linked x' := by
  obtain ⟨hS, hlt⟩ := operation_steady hP (asks_operation hasks) hpool
  have hworker' : ∀ m < x.manager.mem.next, x'.worker m = x.worker m := fun m _ => by rw [hworker]
  refine Linked.kept (some t) hL hI hS (Opening.touched_step hL.touched hP hpool)
    (hL.workers hS hnext hworker') hworker' (errand_others herrand) ?_ (by simp) hM.tasks ?_ ?_
  · intro t' u ht hu
    cases ht
    rw [taskOf_update herrand] at hu
    cases hu
    exact ⟨rfl, hlt⟩
  · intro t' q' ht hq' hpending
    cases ht
    rw [hM.self] at hq'
    cases hq'
    rw [asks_pending hpending] at hasks
    cases hasks
  · intro t' database save closer m ht hq'
    cases ht
    rw [hM.self] at hq'
    cases hq'
    cases hasks
    refine ⟨x.pool.next, by rw [herrand, Function.update_self, hworker], .inl ?_⟩
    rw [WorkerPool.start_mem hpool, hworker]
    exact Tasks.spawn_new (i := 0) rfl

theorem ends_linked (hL : Linked x) (hI : SessionManager.Inv x.manager) (hM : Moved x x' t q)
    (hnext : x'.manager.mem.next = x.manager.mem.next ∨
      (p.inserts = true ∧ x'.manager.mem.next = x.manager.mem.next + 1))
    (htask : x.manager.tasks t = some p) (hasks : asks cfg x t q = none) (hq : q.pending = false)
    (hpool : x'.pool = x.pool) (herrand : x'.errand = Function.update x.errand t none)
    (hworker : ∀ m, m ≠ x.manager.mem.next → x'.worker m = x.worker m)
    (hnew : ∀ e, p.inserts = true → x.errand t = some e →
      x'.worker x.manager.mem.next = e.session) : Linked x' := by
  have hS : Steady none x.pool x'.pool := by
    rw [hpool]
    exact Steady.refl _ _
  have hworker' : ∀ m < x.manager.mem.next, x'.worker m = x.worker m :=
    fun m hm => hworker m (Nat.ne_of_lt hm)
  have hworkers : ∀ m < x'.manager.mem.next, x'.pool.mem.idOf (x'.worker m) ≠ none ∧
      ∀ u, ¬ Leases x'.pool u (x'.worker m) := by
    rcases hnext with hsame | ⟨hinserts, hadded⟩
    · exact hL.workers hS hsame hworker'
    · intro m hm
      rw [hadded] at hm
      rw [hpool]
      rcases Nat.lt_succ_iff_lt_or_eq.mp hm with hold | rfl
      · rw [hworker' m hold]
        exact ⟨hL.known m hold, fun u => hL.free u m hold⟩
      · -- the `open` no longer awaits its lease
        have hp : p.pending = true ∧ p.opening = false := by
          unfold SessionManager.Pc.inserts at hinserts
          split at hinserts
          · exact ⟨rfl, rfl⟩
          · cases hinserts
        obtain ⟨e, he, hknown, hleases⟩ := hL.pending t p htask hp.1
        rw [hnew e hinserts he]
        refine ⟨hknown, fun u hl => ?_⟩
        have hopening := (hleases u hl).2
        rw [hp.2] at hopening
        cases hopening
  refine Linked.kept (some t) hL hI hS (by rw [hpool]; exact hL.touched) hworkers hworker'
    (errand_others herrand) ?_ (by simp) hM.tasks ?_ ?_
  · intro t' u ht hu
    cases ht
    rw [taskOf_update herrand] at hu
    cases hu
  · intro t' q' ht hq' hpending
    cases ht
    rw [hM.self] at hq'
    cases hq'
    rw [hq] at hpending
    cases hpending
  · intro t' database save closer m ht hq'
    cases ht
    rw [hM.self] at hq'
    cases hq'
    cases hasks

theorem resume_linked {o : SessionManager.Outcome} {mv : SessionManager.Move} (hL : Linked x)
    (hI : SessionManager.Inv x.manager) (hP : WorkerPool.Inv cfg.pool own x.pool)
    (htask : x.manager.tasks t = some p) (hready : ready x t p o = true)
    (hmove : SessionManager.advance cfg.tools x.manager.mem t o p = some mv)
    (hmanager : x'.manager = x.manager.resume t mv) (hfollows : Follows cfg x t p x' mv.point) :
    Linked x' := by
  have hM : Moved x x' t mv.point := by
    constructor
    · rw [hmanager]
      exact Tasks.resume_self mv (hI.lt_next htask)
    · intro s r hst hr hawaits
      refine manager_task hI
        (SessionManager.step_advance_iff.mpr ⟨p, mv, htask, hmove, hmanager⟩) ?_ hr hawaits
      rintro (h | ⟨o', h⟩)
      · cases h
      · cases h
        exact hst rfl
  have hmem : x'.manager.mem = mv.mem := by
    rw [hmanager]
    rfl
  have hcases := SessionManager.advance_openMove hmove
  generalize hq : mv.point = q at hfollows hM
  cases hfollows with
  | opens r path id pool errand worker =>
    refine opens_linked hL hI hP hM ?_ pool errand worker
    rw [hmem]
    cases hcases with
    | plain plain => exact plain.shrinks.2
    | makes claims opening mem => rw [mem]
    | waits pending first next opened mem => rw [mem]
    | inserts inserts added exit point =>
      rw [hq] at point
      cases point
  | stays _ pending opened pool errand worker =>
    cases hcases with
    | plain plain =>
      rw [← hq, plain.point] at pending
      cases pending
    | makes claims opening mem =>
      rw [← hq, opening] at opened
      cases opened
    | waits before first next opened mem =>
      exact stays_linked hL hI hM (by rw [hmem, mem]) htask hready before pending pool errand worker
    | inserts inserts added exit point =>
      rw [← hq, point] at pending
      cases pending
  | asks _ k b asks pool errand worker =>
    refine asks_linked hL hI hP hM ?_ asks pool errand worker
    rw [hmem]
    cases hcases with
    | plain plain => exact plain.shrinks.2
    | makes claims opening mem => rw [mem]
    | waits pending first next opened mem => rw [mem]
    | inserts inserts added exit point =>
      rw [← hq, point] at asks
      cases asks
  | ends _ asks ended pool errand worker new =>
    refine ends_linked hL hI hM ?_ htask asks ended pool errand worker new
    rw [hmem]
    cases hcases with
    | plain plain => exact .inl plain.shrinks.2
    | makes claims opening mem => exact .inl (by rw [mem])
    | waits pending first next opened mem => exact .inl (by rw [mem])
    | inserts inserts added exit point => exact .inr ⟨inserts, added⟩

theorem dropErrand_steady (hL : Linked x) (hP : WorkerPool.Inv cfg.pool own x.pool)
    (hpool : x'.pool = dropErrand cfg x t) :
    Steady (taskOf x t) x.pool x'.pool ∧ Opening.Touched x'.pool := by
  rw [hpool]
  unfold dropErrand
  cases htask : (x.errand t).bind Errand.task with
  | none => exact ⟨Steady.refl _ _, hL.touched⟩
  | some u =>
    rw [taskOf, htask, Option.bind_some]
    cases hstep : WorkerPool.step cfg.pool x.pool (.drop u) with
    | none => exact ⟨Steady.refl _ _, hL.touched⟩
    | some pool =>
      exact ⟨step_steady hP hstep (by simp), Opening.touched_step hL.touched hP hstep⟩

theorem drop_linked (hL : Linked x) (hI : SessionManager.Inv x.manager)
    (hP : WorkerPool.Inv cfg.pool own x.pool)
    (hmanager : SessionManager.step cfg.tools x.manager (.drop t) = some x'.manager)
    (hpool : x'.pool = dropErrand cfg x t) (herrand : x'.errand = Function.update x.errand t none)
    (hworker : x'.worker = x.worker) : Linked x' := by
  obtain ⟨hS, htouched⟩ := dropErrand_steady hL hP hpool
  have hdone : x'.manager.tasks t = some (.done .ended) := by
    obtain ⟨p, mv, hp, hm, hx⟩ := SessionManager.step_drop_iff.mp hmanager
    rw [hx, Tasks.resume_self mv (hI.lt_next hp), SessionManager.dropTask_point hm]
  have hshrinks := SessionManager.step_shrinks hmanager fun u o hb => by cases hb
  have hworker' : ∀ m < x.manager.mem.next, x'.worker m = x.worker m := fun m _ => by rw [hworker]
  refine Linked.kept (some t) hL hI hS htouched (hL.workers hS hshrinks.2 hworker') hworker'
    (errand_others herrand) ?_ ?_ ?_ ?_ ?_
  · intro t' u ht hu
    cases ht
    rw [taskOf_update herrand] at hu
    cases hu
  · intro s u hs hu hd
    exact hs (congrArg some (hL.task_inj t s u hd hu))
  · intro s q hs hq hawaits
    refine manager_task hI hmanager ?_ hq hawaits
    rintro (h | ⟨o, h⟩)
    · cases h
      exact hs rfl
    · cases h
  · intro t' q ht hq hpending
    cases ht
    rw [hdone] at hq
    cases hq
    cases hpending
  · intro t' database save closer m ht hq
    cases ht
    rw [hdone] at hq
    cases hq

theorem probe_linked {e : Errand} {tool : String} (hL : Linked x)
    (hI : SessionManager.Inv x.manager) (hP : WorkerPool.Inv cfg.pool own x.pool)
    (htask : x.manager.tasks t = some p) (hwarms : warms p = true) (hbefore : x.errand t = some e)
    (hmanager : x'.manager = x.manager)
    (hpool : WorkerPool.step cfg.pool x.pool (.callTool e.session tool none) = some x'.pool)
    (herrand : x'.errand = Function.update x.errand t (some ⟨e.session, some x.pool.next⟩))
    (hworker : x'.worker = x.worker) : Linked x' := by
  obtain ⟨hS, hlt⟩ := operation_steady hP (.inl ⟨_, _, _, rfl⟩) hpool
  have hp : p.pending = true ∧ p.opening = false := by
    unfold warms at hwarms
    split at hwarms
    · exact ⟨rfl, rfl⟩
    · cases hwarms
  have hworker' : ∀ m < x.manager.mem.next, x'.worker m = x.worker m := fun m _ => by rw [hworker]
  refine Linked.kept (some t) hL hI hS (Opening.touched_step hL.touched hP hpool)
    (hL.workers hS (by rw [hmanager]) hworker') hworker' (errand_others herrand) ?_ (by simp)
    (fun s q _ hq _ => by rw [hmanager] at hq; exact hq) ?_ ?_
  · intro t' u ht hu
    cases ht
    rw [taskOf_update herrand] at hu
    cases hu
    exact ⟨rfl, hlt⟩
  · intro t' q ht hq hpending
    cases ht
    obtain ⟨e', he', hknown, hleases⟩ := hL.pending t p htask hp.1
    rw [hbefore] at he'
    cases he'
    refine ⟨⟨e.session, some x.pool.next⟩, by rw [herrand, Function.update_self],
      hS.known _ hknown, fun u hl => ?_⟩
    have hopening := (hleases u (hS.leases u _ hknown hl)).2
    rw [hp.2] at hopening
    cases hopening
  · intro t' database save closer m ht hq
    cases ht
    rw [hmanager, htask] at hq
    cases hq
    cases hwarms

theorem Alone.steady {b : WorkerPool.Act} (ha : Alone x a b)
    (hP : WorkerPool.Inv cfg.pool own x.pool)
    (h : WorkerPool.step cfg.pool x.pool b = some x'.pool) : Steady none x.pool x'.pool := by
  cases ha with
  | runs b hruns =>
    cases b with
    | advance u o => exact step_steady hP h (by simp)
    | tick => exact step_steady hP h (by simp)
    | _ => cases hruns
  | dropSession k => exact step_steady hP h (by simp)
  | shutdownAll => exact step_steady hP h (by simp)

theorem linked_step (hL : Linked x) (hI : SessionManager.Inv x.manager)
    (hP : WorkerPool.Inv cfg.pool own x.pool) (h : step cfg x a = some x') : Linked x' := by
  cases step_change hI h with
  | client _ b manager starts other pool errand worker =>
    have hS : Steady none x.pool x'.pool := by
      rw [pool]
      exact Steady.refl _ _
    have hshrinks := SessionManager.step_shrinks manager
      fun u o hb => absurd (.inr ⟨o, hb⟩) (starts u)
    have hworker : ∀ m < x.manager.mem.next, x'.worker m = x.worker m := fun m _ => by rw [worker]
    exact Linked.kept none hL hI hS (by rw [pool]; exact hL.touched)
      (hL.workers hS hshrinks.2 hworker) hworker (fun s _ => by rw [errand]) (by simp) (by simp)
      (fun s q _ hq hawaits => manager_task hI manager (starts s) hq hawaits) (by simp) (by simp)
  | resume t o p mv task ready move manager follows =>
    exact resume_linked hL hI hP task ready move manager follows
  | probe t p e tool task warms before manager pool errand worker =>
    exact probe_linked hL hI hP task warms before manager pool errand worker
  | drop t phase manager pool errand worker =>
    exact drop_linked hL hI hP manager pool errand worker
  | pool _ b alone pool manager errand worker =>
    have hS := alone.steady hP pool
    have hworker : ∀ m < x.manager.mem.next, x'.worker m = x.worker m := fun m _ => by rw [worker]
    exact Linked.kept none hL hI hS (Opening.touched_step hL.touched hP pool)
      (hL.workers hS (by rw [manager]) hworker) hworker (fun s _ => by rw [errand]) (by simp)
      (by simp)
      (fun s q _ hq _ => by rw [manager] at hq; exact hq) (by simp) (by simp)

theorem start_linked (cfg : Config) : Linked (start cfg) where
  touched u p k hu hk := by
    simp only [start, WorkerPool.init] at hu
    split at hu <;> cases hu
    cases hk
  known m hm := absurd hm (Nat.not_lt_zero m)
  free u m hm := absurd hm (Nat.not_lt_zero m)
  task_lt t u hu := by cases hu
  task_inj t s u ht := by cases ht
  pending t p ht := by cases ht
  closing t database save closer m ht := by cases ht

/-! ### Closed sessions -/

/-- A session that is registered, or was, and has no worker. -/
def Emptied (x : State) (m : SessionManager.SessionRef) : Prop :=
  m < x.manager.mem.next ∧ x.pool.mem.handleOf (x.worker m) = none

/- When a `close` has its answer, the session has no worker. -/
theorem closed_emptied {database : String} {save : Bool} {closer : SessionManager.Closer}
    {m : SessionManager.SessionRef} {o : SessionManager.Outcome} (hL : Linked x)
    (hI : SessionManager.Inv x.manager)
    (ht : x.manager.tasks t = some (.close database save closer (.closing m)))
    (hready : ready x t (.close database save closer (.closing m)) o = true) : Emptied x m := by
  refine ⟨closing_lt hI ht, ?_⟩
  obtain ⟨u, he, htaking | hnone⟩ := hL.closing t database save closer m ht
  · unfold ready at hready
    simp only [he, Option.map_some, htaking] at hready
    cases hready
  · exact hnone

theorem Follows.steady (hf : Follows cfg x t p x' q) (hL : Linked x)
    (hP : WorkerPool.Inv cfg.pool own x.pool) : Steady none x.pool x'.pool := by
  cases hf with
  | opens r path id pool errand worker => exact (opens_steady hP hL.touched pool).1
  | asks _ k b asks pool errand worker => exact (operation_steady hP (asks_operation asks) pool).1
  | stays _ pending opened pool errand worker =>
    rw [pool]
    exact Steady.refl _ _
  | ends _ asks ended pool errand worker new =>
    rw [pool]
    exact Steady.refl _ _

theorem Follows.worker_kept {m : SessionManager.SessionRef} (hf : Follows cfg x t p x' q)
    (hm : m < x.manager.mem.next) : x'.worker m = x.worker m := by
  cases hf with
  | opens _ _ _ _ _ worker | stays _ _ _ _ _ worker | asks _ _ _ _ _ _ worker => rw [worker]
  | ends _ asks ended pool errand worker new => exact worker m (Nat.ne_of_lt hm)

theorem next_le {o : SessionManager.Outcome} {mv : SessionManager.Move}
    (hm : SessionManager.advance cfg.tools x.manager.mem t o p = some mv) :
    x.manager.mem.next ≤ mv.mem.next := by
  cases SessionManager.advance_openMove hm with
  | plain plain => rw [plain.shrinks.2]
  | makes claims opening mem => rw [mem]
  | waits pending first next opened mem => rw [mem]
  | inserts inserts added exit point =>
    rw [added]
    exact Nat.le_succ _

/- A session that has been closed gets no worker again. -/
theorem emptied_step {m : SessionManager.SessionRef} (hE : Emptied x m) (hL : Linked x)
    (hI : SessionManager.Inv x.manager) (hP : WorkerPool.Inv cfg.pool own x.pool)
    (h : step cfg x a = some x') : Emptied x' m := by
  have hkept : ∀ d, Steady d x.pool x'.pool → x.manager.mem.next ≤ x'.manager.mem.next →
      x'.worker m = x.worker m → Emptied x' m := by
    intro d hS hle hworker
    refine ⟨Nat.lt_of_lt_of_le hE.1 hle, ?_⟩
    rw [hworker]
    exact hS.handle _ (fun u => hL.free u m hE.1) hE.2
  cases step_change hI h with
  | client _ b manager starts other pool errand worker =>
    have hshrinks := SessionManager.step_shrinks manager
      fun u o hb => absurd (.inr ⟨o, hb⟩) (starts u)
    exact hkept none (by rw [pool]; exact Steady.refl _ _) (Nat.le_of_eq hshrinks.2.symm)
      (by rw [worker])
  | resume t o p mv task ready move manager follows =>
    exact hkept none (follows.steady hL hP) (by rw [manager]; exact next_le move)
      (follows.worker_kept hE.1)
  | probe t p e tool task warms before manager pool errand worker =>
    exact hkept none (operation_steady hP (.inl ⟨_, _, _, rfl⟩) pool).1 (by rw [manager])
      (by rw [worker])
  | drop t phase manager pool errand worker =>
    have hshrinks := SessionManager.step_shrinks manager fun u o hb => by cases hb
    exact hkept _ (dropErrand_steady hL hP pool).1 (Nat.le_of_eq hshrinks.2.symm) (by rw [worker])
  | pool _ b alone pool manager errand worker =>
    exact hkept none (alone.steady hP pool) (by rw [manager]) (by rw [worker])

end Step

end IdaHeadless.Supervisor
