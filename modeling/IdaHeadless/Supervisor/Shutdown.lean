import IdaHeadless.Supervisor.Errands
import IdaHeadless.WorkerPool.Stopping

/-!
# What `shutdown` saves

`shutdown` takes two snapshots: of the session ids, which it closes with save one by
one, and then of the children, which it kills. What is in flight between and after them is
not waited for. An `open` that registers its session after the first snapshot is killed
with its database by the second part; so is a session that another close has already taken
out of the maps; a worker that is being spawned outlives the shutdown.

Where no such operation is in flight, every worker with an open database was sent
`close_idb` and has answered before it is killed, and no worker is left.
-/

namespace IdaHeadless.Supervisor

/-! ### What one step does to the pool -/

/-- What an action of the supervisor comes down to in the pool. -/
inductive Causes (x : State) : Act → List WorkerPool.Act → Prop where
  | nothing (a) (other : ∀ b, ¬ Alone x a b) : Causes x a []
  | alone (a b) (alone : Alone x a b) : Causes x a [b]
  | drop (t u) (errand : taskOf x t = some u) : Causes x (.drop t) [.drop u]
  | opens (t o id k secs) (claims : (x.manager.tasks t).any SessionManager.Pc.claims = true) :
      Causes x (.resume t o) [.newSession id, .openObserved k secs]
  | operation (a b) (other : ∀ b, ¬ Alone x a b) (op : Operation b) : Causes x a [b]

variable {cfg : Config} {x x' y y' : State} {a : Act} {t : SessionManager.TaskId}

theorem run_single {b : WorkerPool.Act} {v : WorkerPool.World}
    (h : WorkerPool.step cfg.pool x.pool b = some v) :
    Runs.run (WorkerPool.step cfg.pool) x.pool [b] = some v :=
  Runs.run_cons_iff.mpr ⟨v, h, rfl⟩

theorem step_causes (hI : SessionManager.Inv x.manager) (h : step cfg x a = some x') :
    ∃ bs, Causes x a bs ∧ Runs.run (WorkerPool.step cfg.pool) x.pool bs = some x'.pool := by
  have hsame : ∀ {b : Act}, (∀ c, ¬ Alone x b c) → x'.pool = x.pool →
      ∃ bs, Causes x b bs ∧ Runs.run (WorkerPool.step cfg.pool) x.pool bs = some x'.pool := by
    intro b hb hpool
    exact ⟨[], .nothing b hb, by rw [hpool]; rfl⟩
  cases step_change hI h with
  | client _ b manager starts other pool errand worker => exact hsame other pool
  | resume t o p mv task ready move manager follows =>
    have hother := not_alone (x := x) (a := .resume t o) (by simp) (by simp) (by simp)
    generalize hq : mv.point = q at follows
    cases follows with
    | opens r path id pool errand worker =>
      refine ⟨_, .opens t o id _ _ ?_, pool⟩
      rw [task]
      cases SessionManager.advance_openMove move with
      | plain plain =>
        have hpending := plain.point
        rw [hq] at hpending
        cases hpending
      | makes claims opening mem => exact claims
      | waits pending first next opened mem =>
        rw [hq] at opened
        cases opened
      | inserts inserts added exit point =>
        rw [hq] at point
        cases point
    | stays _ pending opened pool errand worker => exact hsame hother pool
    | asks _ k b asks pool errand worker =>
      exact ⟨[b], .operation _ b hother (asks_operation asks), run_single pool⟩
    | ends _ asks ended pool errand worker new => exact hsame hother pool
  | probe t p e tool task warms before manager pool errand worker =>
    exact ⟨_, .operation _ _ (not_alone (by simp) (by simp) (by simp)) (.inl ⟨_, _, _, rfl⟩),
      run_single pool⟩
  | drop t phase manager pool errand worker =>
    have hother := not_alone (x := x) (a := .drop t) (by simp) (by simp) (by simp)
    unfold dropErrand at pool
    cases htask : (x.errand t).bind Errand.task with
    | none =>
      rw [htask] at pool
      exact hsame hother pool
    | some u =>
      rw [htask, Option.bind_some] at pool
      cases hstep : WorkerPool.step cfg.pool x.pool (.drop u) with
      | none =>
        rw [hstep] at pool
        exact hsame hother pool
      | some v =>
        rw [hstep] at pool
        exact ⟨[.drop u], .drop t u htask, run_single (by rw [pool]; exact hstep)⟩
  | pool _ b alone pool manager errand worker => exact ⟨[b], .alone a b alone, run_single pool⟩

/- What it comes down to in the manager. -/
theorem step_manager (hI : SessionManager.Inv x.manager) (h : step cfg x a = some x') :
    x'.manager = x.manager ∨ ∃ b, SessionManager.step cfg.tools x.manager b = some x'.manager ∧
      (∀ t o, b = .advance t o → a = .resume t o) ∧ ∀ t, b = .drop t → x.phase.closer ≠ some t := by
  cases step_change hI h with
  | client _ b manager starts other pool errand worker =>
    refine .inr ⟨b, manager, fun t o hb => ?_, fun t hb => ?_⟩
    · exact absurd (.inr ⟨o, hb⟩) (starts t)
    · exact absurd (.inl hb) (starts t)
  | resume t o p mv task ready move manager follows =>
    refine .inr ⟨_, SessionManager.step_advance_iff.mpr ⟨p, mv, task, move, manager⟩, ?_, nofun⟩
    intro t' o' hb
    cases hb
    rfl
  | probe t p e tool task warms before manager pool errand worker => exact .inl manager
  | drop t phase manager pool errand worker =>
    refine .inr ⟨_, manager, nofun, ?_⟩
    intro t' hb
    cases hb
    exact phase
  | pool _ b alone pool manager errand worker => exact .inl manager

/-- How the phase can change. -/
inductive PhaseChange (x : State) (x' : State) : Act → Prop where
  | same (a : Act) (serves : a ≠ .shutdownAll) (phase : x'.phase = x.phase) : PhaseChange x x' a
  | resume (t : SessionManager.TaskId) (o : SessionManager.Outcome) (p : SessionManager.Pc)
      (task : x.manager.tasks t = some p) (ready : ready x t p o = true)
      (phase : x'.phase = x.phase.record p) : PhaseChange x x' (.resume t o)
  | begins (before : x.phase = .serving) (after : x'.phase = .closing x.manager.next [])
      (task : x'.manager = x.manager.spawn [.shutdown]) : PhaseChange x x' .shutdown
  | kills (t : SessionManager.TaskId) (closed : List SessionManager.SessionRef)
      (before : x.phase = .closing t closed) (ended : x.manager.tasks t = some (.done .ended))
      (after : x'.phase = .killing x.pool.next x'.pool.next) : PhaseChange x x' .shutdownAll

theorem managerStep_cases {b : SessionManager.Act} (h : managerStep cfg x b = some x') :
    SessionManager.step cfg.tools x.manager b = some x'.manager ∧ x'.phase = x.phase := by
  obtain ⟨manager, hm, rfl⟩ := Option.map_eq_some_iff.mp h
  exact ⟨hm, rfl⟩

theorem step_phase (h : step cfg x a = some x') : PhaseChange x x' a := by
  cases a with
  | openSession request buildCaches initHexrays =>
    simp only [step] at h
    obtain ⟨y, hy, rfl⟩ := Option.map_eq_some_iff.mp h
    exact .same _ (by simp) (managerStep_cases hy).2
  | call database tool timeoutSecs =>
    simp only [step] at h
    obtain ⟨y, hy, rfl⟩ := Option.map_eq_some_iff.mp h
    exact .same _ (by simp) (managerStep_cases hy).2
  | list | close _ _ | reapIdle | tick _ => exact .same _ (by simp) (managerStep_cases h).2
  | shutdown =>
    simp only [step] at h
    split at h
    · rename_i hserving
      obtain ⟨y, hy, rfl⟩ := Option.map_eq_some_iff.mp h
      exact .begins hserving rfl (Option.some.inj (managerStep_cases hy).1).symm
    · cases h
  | resume t o =>
    simp only [step] at h
    obtain ⟨p, hp, h⟩ := Option.bind_eq_some_iff.mp h
    split at h
    · rename_i hready
      obtain ⟨manager, -, h⟩ := Option.bind_eq_some_iff.mp h
      obtain ⟨q, -, h⟩ := Option.bind_eq_some_iff.mp h
      obtain ⟨y, -, rfl⟩ := Option.map_eq_some_iff.mp h
      exact .resume t o p hp hready rfl
    · cases h
  | probe t =>
    simp only [step, probe] at h
    split at h
    · split at h
      · obtain ⟨pool, -, rfl⟩ := Option.map_eq_some_iff.mp h
        exact .same _ (by simp) rfl
      · cases h
    · cases h
  | drop t =>
    simp only [step] at h
    split at h
    · cases h
    · split at h
      · cases h
      · obtain ⟨manager, -, rfl⟩ := Option.map_eq_some_iff.mp h
        exact .same _ (by simp) rfl
  | dropSession k =>
    simp only [step] at h
    split at h
    · cases h
    · obtain ⟨pool, -, rfl⟩ := Option.map_eq_some_iff.mp h
      exact .same _ (by simp) rfl
  | pool b =>
    simp only [step] at h
    split at h
    · obtain ⟨pool, -, rfl⟩ := Option.map_eq_some_iff.mp h
      exact .same _ (by simp) rfl
    · cases h
  | shutdownAll =>
    simp only [step] at h
    split at h
    · rename_i t closed hphase
      split at h
      · rename_i hended
        obtain ⟨pool, -, rfl⟩ := Option.map_eq_some_iff.mp h
        exact .kills t closed hphase hended rfl
      · cases h
    · cases h

/-! ### When nothing is in the way -/

/-- A retirement after a release that saved, or by `shutdown_all`. -/
def orderly : WorkerPool.RetireCtx → Bool
  | .release _ save _ => save
  | .shutdown => true
  | _ => false

/-- No call that failed, was cancelled or dropped, and no close that does not save, kills a worker
that has a database. -/
def Spares (x : WorkerPool.World) : WorkerPool.Act → Prop
  | .advance u _ =>
    match x.tasks u with
    | some (.retire w ctx .take) => orderly ctx = true ∨ WorkerPool.holdsDatabase x w = false
    | _ => True
  | _ => True

/-- The session is behind one that `shutdown` has closed. -/
def closedByShutdown (x : State) (k : WorkerPool.SessionRef) : Bool :=
  match x.phase with
  | .closing _ closed => closed.any fun m => x.worker m = k
  | _ => false

/-- No session has a worker but those in the maps and those that `shutdown` has closed, and
nothing is being done with a worker. -/
def Settled (x : State) : Prop :=
  (∀ k < x.pool.mem.nextSession, x.pool.mem.handleOf k ≠ none →
    registered x k = true ∨ closedByShutdown x k = true) ∧
    ∀ t < x.pool.next, (x.pool.tasks t).all WorkerPool.Pc.quiet = true

/-- No `open` registers its session after the snapshot of the ids, and none makes one after
that of the children. -/
def Lets (x : State) (t : SessionManager.TaskId) : Prop :=
  match x.phase with
  | .serving => True
  | .closing s _ => x.manager.tasks s = some .shutdown ∨
      (x.manager.tasks t).any SessionManager.Pc.inserts = false
  | .killing .. => (x.manager.tasks t).any SessionManager.Pc.claims = false

def Undisturbed (x : State) : Act → Prop
  | .pool b => WorkerPool.KeepsLease x.pool b ∧ (x.phase ≠ .serving → Spares x.pool b)
  | .drop t => ∀ u, taskOf x t = some u → WorkerPool.KeepsLease x.pool (.drop u)
  | .resume t _ => Lets x t
  | .shutdownAll => Settled x
  | _ => True

instance (x : WorkerPool.World) (b : WorkerPool.Act) : Decidable (Spares x b) := by
  unfold Spares
  rcases b with ⟨⟩ <;> try infer_instance
  rename_i u _
  dsimp only
  generalize x.tasks u = p
  rcases p with _ | ⟨⟨⟩⟩ <;> try infer_instance
  rename_i stage
  rcases stage with ⟨⟩ <;> infer_instance

instance (x : State) : Decidable (Settled x) := by
  unfold Settled
  infer_instance

instance (x : State) (t : SessionManager.TaskId) : Decidable (Lets x t) := by
  unfold Lets
  split <;> infer_instance

instance (x : State) (a : Act) : Decidable (Undisturbed x a) :=
  match a with
  | .pool b => inferInstanceAs (Decidable (_ ∧ _))
  | .drop t =>
    match h : taskOf x t with
    | none => isTrue (by simp [Undisturbed, h])
    | some u => decidable_of_iff (WorkerPool.KeepsLease x.pool (.drop u)) (by simp [Undisturbed, h])
  | .resume t _ => inferInstanceAs (Decidable (Lets x t))
  | .shutdownAll => inferInstanceAs (Decidable (Settled x))
  | .openSession .. | .call .. | .list | .close .. | .reapIdle | .shutdown | .tick _ | .probe _
  | .dropSession _ => isTrue trivial

/-! ### What every undisturbed run keeps -/

inductive PhaseInv (x : State) : Prop where
  | serving (phase : x.phase = .serving) (none : WorkerPool.NoShutdown x.pool)
  | closing (s : SessionManager.TaskId) (closed : List SessionManager.SessionRef)
      (p : SessionManager.Pc) (phase : x.phase = .closing s closed)
      (task : x.manager.tasks s = some p) (emptied : ∀ m ∈ closed, Emptied x m)
      (left : p = .shutdown ∨ SessionManager.Closing x.manager.mem p)
      (none : WorkerPool.NoShutdown x.pool)
  | killing (first last : WorkerPool.TaskId) (phase : x.phase = .killing first last)
      (stopped : WorkerPool.Stopped first last x.pool)

structure Inv (cfg : Config) (x : State) : Prop where
  manager : SessionManager.Inv x.manager
  pool : ∃ own, WorkerPool.Inv cfg.pool own x.pool
  ends : WorkerPool.EndInv x.pool
  linked : Linked x
  phase : PhaseInv x

theorem start_inv (cfg : Config) : Inv cfg (start cfg) where
  manager := SessionManager.init_inv
  pool := ⟨_, WorkerPool.init_inv cfg.pool⟩
  ends := WorkerPool.init_endInv cfg.pool
  linked := start_linked cfg
  phase := .serving rfl fun t w stage ht => by
    simp only [start, WorkerPool.init] at ht
    split at ht <;> cases ht

variable {bs : List WorkerPool.Act}

theorem Causes.keepsLease (hc : Causes x a bs) (hU : Undisturbed x a) :
    Runs.Along (WorkerPool.step cfg.pool) WorkerPool.KeepsLease x.pool bs := by
  cases hc with
  | nothing => trivial
  | alone _ b alone =>
    cases alone with
    | runs b runs => exact ⟨hU.1, fun _ _ => trivial⟩
    | dropSession k => exact ⟨trivial, fun _ _ => trivial⟩
    | shutdownAll => exact ⟨trivial, fun _ _ => trivial⟩
  | drop t u errand => exact ⟨hU u errand, fun _ _ => trivial⟩
  | opens t o id k secs claims => exact ⟨trivial, fun _ _ => ⟨trivial, fun _ _ => trivial⟩⟩
  | operation a b other op =>
    rcases op with ⟨k, tool, secs, rfl⟩ | ⟨k, save, rfl⟩
    · exact ⟨trivial, fun _ _ => trivial⟩
    · exact ⟨trivial, fun _ _ => trivial⟩

/- Where an action of the pool comes from. -/
theorem Causes.mem_cases {b : WorkerPool.Act} (hc : Causes x a bs) (hb : b ∈ bs) :
    Alone x a b ∨ (∃ t o, a = .resume t o ∧
        (x.manager.tasks t).any SessionManager.Pc.claims = true ∧
        ((∃ id, b = .newSession id) ∨ ∃ k secs, b = .openObserved k secs)) ∨
      Operation b ∨ ∃ u, b = .drop u := by
  cases hc with
  | nothing => cases hb
  | alone _ b' alone =>
    obtain rfl := List.mem_singleton.mp hb
    exact .inl alone
  | opens t o id k secs claims =>
    refine .inr (.inl ⟨t, o, rfl, claims, ?_⟩)
    rcases List.mem_cons.mp hb with rfl | hb
    · exact .inl ⟨id, rfl⟩
    · exact .inr ⟨k, secs, List.mem_singleton.mp hb⟩
  | operation a b' other op =>
    obtain rfl := List.mem_singleton.mp hb
    exact .inr (.inr (.inl op))
  | drop t u errand => exact .inr (.inr (.inr ⟨u, List.mem_singleton.mp hb⟩))

theorem Causes.not_shutdownAll (hc : Causes x a bs) (ha : a ≠ .shutdownAll) :
    ∀ b ∈ bs, b ≠ .shutdownAll := by
  rintro b hb rfl
  rcases hc.mem_cases hb with halone | ⟨t, o, -, -, hb⟩ | hop | ⟨u, hb⟩
  · cases halone with
    | runs _ runs => cases runs
    | shutdownAll => exact ha rfl
  · simp at hb
  · simp [Operation] at hop
  · cases hb

/- Only an `open` that claims its id starts an `open_observed`. -/
theorem Causes.not_openObserved (hc : Causes x a bs)
    (ha : ∀ t o, a = .resume t o → (x.manager.tasks t).any SessionManager.Pc.claims = false) :
    ∀ b ∈ bs, ∀ k secs, b ≠ .openObserved k secs := by
  rintro b hb k secs rfl
  rcases hc.mem_cases hb with halone | ⟨t, o, hresume, hclaims, -⟩ | hop | ⟨u, hb⟩
  · cases halone with
    | runs _ runs => cases runs
  · rw [ha t o hresume] at hclaims
    cases hclaims
  · simp [Operation] at hop
  · cases hb

/- The tasks of the pool go on by themselves. -/
theorem Causes.not_advance (hc : Causes x a bs) (ha : ∀ b, a ≠ .pool b) :
    ∀ b ∈ bs, ∀ u o, b ≠ .advance u o := by
  rintro b hb u o rfl
  rcases hc.mem_cases hb with halone | ⟨t, o, -, -, hb⟩ | hop | ⟨u, hb⟩
  · cases halone with
    | runs _ runs => exact ha _ rfl
  · simp at hb
  · simp [Operation] at hop
  · cases hb

theorem noShutdown_run {u : WorkerPool.World} (hI : Inv cfg x) (hN : WorkerPool.NoShutdown x.pool)
    (hb : ∀ b ∈ bs, b ≠ .shutdownAll)
    (hrun : Runs.run (WorkerPool.step cfg.pool) x.pool bs = some u) :
    WorkerPool.NoShutdown u :=
  (WorkerPool.run_pool_along (fun _ _ _ _ _ hN hb hs => WorkerPool.noShutdown_step hN hs hb) hI.pool
    hN (Runs.Along.of_forall fun b hmem _ => hb b hmem) hrun).2

theorem stopped_run {u : WorkerPool.World} {first last : WorkerPool.TaskId} (hI : Inv cfg x)
    (hS : WorkerPool.Stopped first last x.pool) (hb : ∀ b ∈ bs, b ≠ .shutdownAll)
    (hb' : ∀ b ∈ bs, ∀ k secs, b ≠ .openObserved k secs)
    (hrun : Runs.run (WorkerPool.step cfg.pool) x.pool bs = some u) :
    WorkerPool.Stopped first last u := by
  have hboth : Runs.Along (WorkerPool.step cfg.pool)
      (fun _ b => b ≠ .shutdownAll ∧ ∀ k secs, b ≠ .openObserved k secs) x.pool bs :=
    Runs.Along.of_forall fun b hmem _ => ⟨hb b hmem, hb' b hmem⟩
  exact (WorkerPool.run_pool_along
    (fun own v b v' hv hS hb hs => WorkerPool.stopped_step hS hv hs hb.2 hb.1) hI.pool hS hboth
    hrun).2

/- The task of `shutdown` before its snapshot, or closing what is in the maps. -/
theorem closing_kept {s : SessionManager.TaskId} {closed : List SessionManager.SessionRef}
    {p : SessionManager.Pc} (hI : Inv cfg x) (h : step cfg x a = some x')
    (hphase : x.phase = .closing s closed) (hp : x.manager.tasks s = some p)
    (hleft : p = .shutdown ∨ SessionManager.Closing x.manager.mem p) (hU : Undisturbed x a) :
    ∃ q, x'.manager.tasks s = some q ∧
      (q = .shutdown ∨ SessionManager.Closing x'.manager.mem q) := by
  rcases step_manager hI.manager h with hsame | ⟨b, hb, hresume, hdrop⟩
  · rw [hsame]
    exact ⟨p, hp, hleft⟩
  · have hnotDrop : b ≠ .drop s := fun hbs => hdrop s hbs (by rw [hphase]; rfl)
    rcases hleft with rfl | hclosing
    · by_cases hmoves : b.Moves s
      · rcases hmoves with hbs | ⟨o, rfl⟩
        · exact absurd hbs hnotDrop
        · obtain ⟨mv, hm, hw⟩ := SessionManager.step_advance_at hp hb
          rw [hw]
          exact ⟨_, Tasks.resume_self mv (hI.manager.lt_next hp),
            .inr (SessionManager.snapshot_closing hm)⟩
      · exact ⟨_, SessionManager.step_kept hI.manager hb hp hmoves, .inl rfl⟩
    · have hinserts : ∀ u o, b = .advance u o →
          (x.manager.tasks u).any SessionManager.Pc.inserts = false := by
        intro u o hbu
        rw [hresume u o hbu] at hU
        simp only [Undisturbed, Lets, hphase] at hU
        rcases hU with hshutdown | hno
        · rw [hp] at hshutdown
          cases hshutdown
          cases hclosing
        · exact hno
      obtain ⟨q, hq, hclosing'⟩ :=
        SessionManager.closing_step hI.manager hp hclosing hb hnotDrop hinserts
      exact ⟨q, hq, .inr hclosing'⟩

/- The sessions that `shutdown` has closed, after one more await. -/
theorem record_emptied {s : SessionManager.TaskId} {closed : List SessionManager.SessionRef}
    {p : SessionManager.Pc} {o : SessionManager.Outcome} (hI : Inv cfg x)
    (hp : x.manager.tasks t = some p) (hready : ready x t p o = true)
    (hphase : x.phase = .closing s closed) (hemptied : ∀ m ∈ closed, Emptied x m) :
    ∃ closed', x.phase.record p = .closing s closed' ∧ ∀ m ∈ closed', Emptied x m := by
  rw [hphase]
  refine ⟨_, rfl, fun m hm => ?_⟩
  rcases List.mem_append.mp hm with hnew | hold
  · unfold closes at hnew
    split at hnew
    · cases List.mem_singleton.mp hnew
      exact closed_emptied hI.linked hI.manager hp hready
    · cases hnew
  · exact hemptied m hold

/- When the last close has returned, no session is in the maps. -/
theorem ended_unregistered (hc : SessionManager.Closing x.manager.mem (.done .ended))
    (k : WorkerPool.SessionRef) : registered x k = false := by
  cases hc with
  | ended left =>
    rw [Bool.eq_false_iff]
    intro hreg
    obtain ⟨entry, hmem, -⟩ := List.any_eq_true.mp hreg
    exact left entry.1 entry.2 (AList.mem_lookup_iff.mpr hmem)

theorem shutdownAll_kept {s : SessionManager.TaskId} {closed : List SessionManager.SessionRef}
    (hI : Inv cfg x) (hphase : x.phase = .closing s closed)
    (hended : x.manager.tasks s = some (.done .ended)) (hS : Settled x)
    (h : WorkerPool.step cfg.pool x.pool .shutdownAll = some x'.pool) :
    WorkerPool.Stopped x.pool.next x'.pool.next x'.pool := by
  have hclosing :
      SessionManager.Closing x.manager.mem (.done .ended) ∧ ∀ m ∈ closed, Emptied x m := by
    cases hI.phase with
    | serving phase none =>
      rw [phase] at hphase
      cases hphase
    | killing first last phase stopped =>
      rw [phase] at hphase
      cases hphase
    | closing s' closed' p phase task emptied left none =>
      rw [phase] at hphase
      cases hphase
      rw [task] at hended
      cases hended
      rcases left with he | hc
      · cases he
      · exact ⟨hc, emptied⟩
  obtain ⟨own, hpool⟩ := hI.pool
  refine WorkerPool.shutdownAll_stopped hI.ends h ?_ ?_
  · intro k
    by_contra hk
    have hlt : k < x.pool.mem.nextSession := by
      refine hpool.global.session_lt k fun hnone => hk ?_
      rw [WorkerPool.Pool.handleOf, hnone]
      rfl
    rcases hS.1 k hlt hk with hreg | hclosed
    · rw [ended_unregistered hclosing.1 k] at hreg
      cases hreg
    · rw [closedByShutdown, hphase] at hclosed
      obtain ⟨m, hm, he⟩ := List.any_eq_true.mp hclosed
      have hnone := (hclosing.2 m hm).2
      rw [of_decide_eq_true he] at hnone
      exact hk hnone
  · intro t p hp
    have hquiet := hS.2 t (hpool.lt_next hp)
    rw [hp] at hquiet
    exact hquiet

theorem phase_step (hI : Inv cfg x) (hU : Undisturbed x a) (h : step cfg x a = some x') :
    PhaseInv x' := by
  obtain ⟨own, hpool⟩ := hI.pool
  obtain ⟨bs, hc, hrun⟩ := step_causes hI.manager h
  have hemptied : ∀ m, Emptied x m → Emptied x' m :=
    fun m hm => emptied_step hm hI.linked hI.manager hpool h
  -- as long as `shutdown_all` is not called, the phase moves on by itself
  have hgoes : a ≠ .shutdownAll → (∀ s closed, x.phase = .closing s closed →
        (∀ m ∈ closed, Emptied x m) →
        ∃ closed', x'.phase = .closing s closed' ∧ ∀ m ∈ closed', Emptied x' m) →
      (x.phase.closer = none → x'.phase = x.phase) → PhaseInv x' := by
    intro serves hclosed hsame
    have hb := hc.not_shutdownAll serves
    cases hI.phase with
    | serving before none =>
      exact .serving ((hsame (by rw [before]; rfl)).trans before) (noShutdown_run hI none hb hrun)
    | closing s closed p before task emptied left none =>
      obtain ⟨q, hq, hleft⟩ := closing_kept hI h before task left hU
      obtain ⟨closed', hafter, hall⟩ := hclosed s closed before emptied
      exact .closing s closed' q hafter hq hall hleft (noShutdown_run hI none hb hrun)
    | killing first last before stopped =>
      refine .killing first last ((hsame (by rw [before]; rfl)).trans before)
        (stopped_run hI stopped hb (hc.not_openObserved ?_) hrun)
      intro t o ha
      rw [ha] at hU
      simpa only [Undisturbed, Lets, before] using hU
  cases step_phase h with
  | same _ serves phase =>
    refine hgoes serves (fun s closed before hall => ⟨closed, phase.trans before, ?_⟩)
      fun _ => phase
    exact fun m hm => hemptied m (hall m hm)
  | resume t o p task ready phase =>
    refine hgoes (by simp) (fun s closed before hall => ?_) fun hnone => ?_
    · obtain ⟨closed', hrecord, hall'⟩ := record_emptied hI task ready before hall
      exact ⟨closed', phase.trans hrecord, fun m hm => hemptied m (hall' m hm)⟩
    · rw [phase]
      cases hp : x.phase with
      | closing s closed =>
        rw [hp] at hnone
        cases hnone
      | serving => rfl
      | killing first last => rfl
  | begins before after task =>
    refine .closing _ [] _ after ?_ (by simp) (.inl rfl) ?_
    · rw [task]
      exact Tasks.spawn_new (i := 0) rfl
    · cases hI.phase with
      | serving _ none => exact noShutdown_run hI none (hc.not_shutdownAll (by simp)) hrun
      | closing s closed p phase =>
        rw [before] at phase
        cases phase
      | killing first last phase =>
        rw [before] at phase
        cases phase
  | kills s closed before ended after =>
    refine .killing _ _ after (shutdownAll_kept hI before ended hU ?_)
    cases step_change hI.manager h with
    | client _ b manager starts other => exact absurd .shutdownAll (other _)
    | pool _ b alone pool manager errand worker =>
      cases alone
      exact pool

theorem inv_step (hI : Inv cfg x) (hU : Undisturbed x a) (h : step cfg x a = some x') :
    Inv cfg x' := by
  obtain ⟨bs, hc, hrun⟩ := step_causes hI.manager h
  obtain ⟨own, hown⟩ := hI.pool
  obtain ⟨hpool, hends⟩ := WorkerPool.run_pool_along
    (fun own v b v' hv hE hK hs => WorkerPool.EndInv.step hE hv hK hs) hI.pool hI.ends
    (hc.keepsLease hU) hrun
  refine ⟨?_, hpool, hends, linked_step hI.linked hI.manager hown h, phase_step hI hU h⟩
  rcases step_manager hI.manager h with hsame | ⟨b, hb, -⟩
  · rw [hsame]
    exact hI.manager
  · exact (SessionManager.step_inv hI.manager hb).1

/-! ### The end of a run -/

theorem slots_kept {u : WorkerPool.World} (hb : ∀ b ∈ bs, ∀ t o, b ≠ .advance t o)
    (hrun : Runs.run (WorkerPool.step cfg.pool) x.pool bs = some u) (w : WorkerPool.WorkerId) :
    u.mem.stateOf w = x.pool.mem.stateOf w := by
  refine Runs.run_inv_along (fun v => v.mem.stateOf w = x.pool.mem.stateOf w)
    (G := fun _ b => ∀ t o, b ≠ .advance t o) ?_ rfl
      (Runs.Along.of_forall fun b hmem _ => hb b hmem)
    hrun
  intro v b v' hv hb hs
  rcases WorkerPool.step_slot hs w with ⟨hstate, -⟩ | ⟨t, o, pc, rfl, -⟩
  · exact hstate.trans hv
  · exact absurd rfl (hb t o)

/-- From the start of `shutdown` on, a worker that has a database is asked to save it before it
is killed. -/
def SavesKilled (cfg : Config) (x : State) (a : Act) : Prop :=
  x.phase ≠ .serving → ∀ x' w, step cfg x a = some x' → WorkerPool.Kills x.pool x'.pool w →
    WorkerPool.holdsDatabase x.pool w = true → WorkerPool.SavedFirst x.pool w

theorem inv_savesKilled (hI : Inv cfg x) (hU : Undisturbed x a) : SavesKilled cfg x a := by
  intro hphase x' w h hkill hholds
  obtain ⟨own, hpool⟩ := hI.pool
  obtain ⟨bs, hc, hrun⟩ := step_causes hI.manager h
  obtain ⟨st, hst, hassigned⟩ := WorkerPool.holdsDatabase_assigned hholds
  by_cases ha : ∀ b, a ≠ .pool b
  · exfalso
    obtain ⟨⟨st', hst', hlive⟩, hdead⟩ := hkill
    rw [slots_kept (hc.not_advance ha) hrun w, hst'] at hdead
    exact hlive (Option.some.inj hdead)
  · push Not at ha
    obtain ⟨b, rfl⟩ := ha
    have hstep : WorkerPool.step cfg.pool x.pool b = some x'.pool := by
      cases step_change hI.manager h with
      | client _ _ manager starts other =>
        simp only [step] at h
        split at h
        · rename_i hruns
          exact absurd (.runs b hruns) (other b)
        · cases h
      | pool _ _ alone pool =>
        cases alone
        exact pool
    obtain ⟨t, o, ctx, rfl, ht⟩ := WorkerPool.killed_by_retirement hstep hkill hholds
    have hspares := hU.2 hphase
    simp only [Spares, ht, hholds, Bool.true_eq_false, or_false] at hspares
    cases ctx with
    | guard | call | dispatch | reservation => cases hspares
    | release sessionId save err =>
      obtain rfl : save = true := hspares
      exact WorkerPool.release_saved hI.ends.closeLast hpool ht
    | shutdown =>
      exfalso
      cases hI.phase with
      | serving phase none => exact hphase phase
      | closing s closed p phase task emptied left none => exact none t w .take ht
      | killing first last phase stopped =>
        rcases stopped.idle w st hst with rfl | rfl
        · cases hassigned
        · cases hassigned

/-- Where no operation is in the way, `shutdown` saves every database and leaves no worker. -/
theorem shutdown_saves {as : List Act} (hrun : Runs.run (step cfg) (start cfg) as = some x)
    (hundisturbed : Runs.Along (step cfg) Undisturbed (start cfg) as) :
    Runs.Along (step cfg) (SavesKilled cfg) (start cfg) as ∧
      (Finished x → (∀ w st, x.pool.mem.stateOf w = some st → st = .dead) ∧
        ∀ t p, x.pool.tasks t = some p → p.reserves = none) := by
  have hstep : ∀ y a z, Inv cfg y → Undisturbed y a → step cfg y a = some z → Inv cfg z :=
    fun y a z hI hU h => inv_step hI hU h
  have hI : Inv cfg x := Runs.run_inv_along (Inv cfg) hstep (start_inv cfg) hundisturbed hrun
  refine ⟨Runs.Along.mono (Inv cfg) hstep (fun y a hI hU => inv_savesKilled hI hU) (start_inv cfg)
    hundisturbed, ?_⟩
  rintro ⟨first, last, hphase, hover⟩
  cases hI.phase with
  | serving phase none =>
    rw [phase] at hphase
    cases hphase
  | closing s closed p phase task emptied left none =>
    rw [phase] at hphase
    cases hphase
  | killing first' last' phase stopped =>
    rw [phase] at hphase
    cases hphase
    exact ⟨fun w st hst => stopped.all_dead hover hst,
      fun t p hp => WorkerPool.lingers_reserves (stopped.tasks t p hp)⟩

/-! ### Runs -/

def twoWorkers : Config := ⟨⟨2, 0, 0, 600⟩, some⟩

/-- Task `t` opens a session, for which task `u` of the pool leases a worker. -/
def opens (t : SessionManager.TaskId) (u : WorkerPool.TaskId) (path id : String) : List Act :=
  [.openSession ⟨path, "prefer_headless", 0, none⟩ false false, .resume t (.canonical (.ok path)),
    .resume t .go, .resume t (.uuid id), .pool (WorkerPool.go u)]

/-- The worker comes up and opens the database. -/
def comesUp (t : SessionManager.TaskId) (u : WorkerPool.TaskId) (path : String) : List Act :=
  [.pool (WorkerPool.go u), .pool (.advance u .spawned), .pool (WorkerPool.go u),
    .pool (WorkerPool.go u), .pool (WorkerPool.go u),
    .pool (.advance u (.answer (.result none (some path)))), .pool (WorkerPool.go u),
    .resume t (.answered none)]

def registers (t : SessionManager.TaskId) : List Act := [.resume t (.answered none), .resume t .go]

/-- The next close of `shutdown`, up to the end of the release. -/
def closesNext (t : SessionManager.TaskId) (u : WorkerPool.TaskId) (answer : WorkerPool.Answer) :
    List Act :=
  [.resume t .go, .resume t .go, .resume t .go, .resume t .go, .pool (WorkerPool.go u),
    .pool (WorkerPool.go u), .pool (WorkerPool.go u), .pool (.advance u (.answer answer)),
    .pool (WorkerPool.go u), .pool (WorkerPool.go u)]

def retires (u : WorkerPool.TaskId) : List Act :=
  [.pool (WorkerPool.go u), .pool (WorkerPool.go u), .pool (WorkerPool.go u)]

/-- Two sessions are open. The close of the first succeeds, that of the second times out. -/
def twoSessions : List Act :=
  List.flatten [[.pool (WorkerPool.go 0)], opens 0 1 "/a" "A", comesUp 0 1 "/a", registers 0,
    opens 1 2 "/b" "B", [.pool (WorkerPool.go 2)], comesUp 1 2 "/b", registers 1,
    [.shutdown, .resume 2 (.keys ["B", "A"])], closesNext 2 3 (.result none none),
    [.resume 2 (.answered none)], closesNext 2 5 .timeout, retires 5,
    [.resume 2 (.answered (some (.timeout 5))), .shutdownAll], retires 6]

theorem shutdown_saves_two :
    ∃ x, Runs.run (step twoWorkers) (start twoWorkers) twoSessions = some x ∧ Finished x ∧
      Runs.Along (step twoWorkers) (SavesKilled twoWorkers) (start twoWorkers) twoSessions ∧
      (∀ w st, x.pool.mem.stateOf w = some st → st = .dead) ∧
      ∀ t p, x.pool.tasks t = some p → p.reserves = none := by
  have hrun : (Runs.run (step twoWorkers) (start twoWorkers) twoSessions).any (fun x =>
      decide (x.phase = .killing 6 7 ∧
        (x.pool.tasks 6).any WorkerPool.Pc.ended = true)) = true := by
    decide +kernel
  obtain ⟨x, hx, hp⟩ := (Option.any_eq_true _ _).mp hrun
  obtain ⟨hphase, hended⟩ := of_decide_eq_true hp
  have hfinished : Finished x := by
    refine ⟨6, 7, hphase, fun t hfirst hlast => ?_⟩
    obtain rfl : t = 6 := Nat.le_antisymm (Nat.le_of_lt_succ hlast) hfirst
    exact hended
  obtain ⟨hsaves, hend⟩ := shutdown_saves hx (by decide +kernel)
  exact ⟨x, hx, hfinished, hsaves, hend hfinished⟩

/-- The session is registered after `shutdown` has read the ids. -/
def lateSession : List Act :=
  List.flatten [[.pool (WorkerPool.go 0)], opens 0 1 "/a" "A", comesUp 0 1 "/a",
    [.shutdown, .resume 1 (.keys [])], registers 0, [.shutdownAll]]

/-- The worker is up before `shutdown_all` reads the children, and is not yet one of them. -/
def lateWorker : List Act :=
  List.flatten [[.pool (WorkerPool.go 0)], opens 0 1 "/a" "A",
    [.pool (WorkerPool.go 1), .shutdown, .resume 1 (.keys []), .pool (.advance 1 .spawned),
      .shutdownAll]]

theorem shutdown_in_flight :
    (∃ x, Runs.run (step twoWorkers) (start twoWorkers) (lateSession ++ retires 2) = some x ∧
      Finished x ∧ ¬ Runs.Along (step twoWorkers) (SavesKilled twoWorkers) (start twoWorkers)
        (lateSession ++ retires 2)) ∧
    ∃ x, Runs.run (step twoWorkers) (start twoWorkers) lateWorker = some x ∧ Finished x ∧
      x.pool.mem.stateOf 0 = some (.leased "A") := by
  constructor
  · have hrun : (Runs.run (step twoWorkers) (start twoWorkers) (lateSession ++ retires 2)).any
        (fun x => decide (x.phase = .killing 2 3 ∧
          (x.pool.tasks 2).any WorkerPool.Pc.ended = true)) = true := by
      decide +kernel
    have hkill : (Runs.run (step twoWorkers) (start twoWorkers) lateSession).any (fun y =>
        (step twoWorkers y (.pool (WorkerPool.go 2))).any fun y' => decide (y.phase ≠ .serving ∧
          y.pool.mem.stateOf 0 = some (.leased "A") ∧ y'.pool.mem.stateOf 0 = some .dead ∧
          WorkerPool.holdsDatabase y.pool 0 = true ∧
          y.pool.mem.lastSent 0 = some (.tool "A" "open_idb"))) = true := by
      decide +kernel
    obtain ⟨x, hx, hp⟩ := (Option.any_eq_true _ _).mp hrun
    obtain ⟨hphase, hended⟩ := of_decide_eq_true hp
    refine ⟨x, hx, ⟨2, 3, hphase, fun t hfirst hlast => ?_⟩, fun halong => ?_⟩
    · obtain rfl : t = 2 := Nat.le_antisymm (Nat.le_of_lt_succ hlast) hfirst
      exact hended
    · obtain ⟨y, hy, hy'⟩ := (Option.any_eq_true _ _).mp hkill
      obtain ⟨y', hstep, hfacts⟩ := (Option.any_eq_true _ _).mp hy'
      obtain ⟨hserving, hleased, hdead, hholds, hlast⟩ := of_decide_eq_true hfacts
      obtain ⟨⟨sessionId, hsaved⟩, -⟩ := halong.step_at hy hserving y' 0 hstep
        ⟨⟨_, hleased, by simp⟩, hdead⟩ hholds
      rw [hlast] at hsaved
      cases hsaved
  · have hrun : (Runs.run (step twoWorkers) (start twoWorkers) lateWorker).any (fun x =>
        decide (x.phase = .killing 2 2 ∧ x.pool.mem.stateOf 0 = some (.leased "A"))) = true := by
      decide +kernel
    obtain ⟨x, hx, hp⟩ := (Option.any_eq_true _ _).mp hrun
    obtain ⟨hphase, hleased⟩ := of_decide_eq_true hp
    refine ⟨x, hx, ⟨2, 2, hphase, fun t hfirst hlast => ?_⟩, hleased⟩
    exact absurd hlast (Nat.not_lt_of_le hfirst)

end IdaHeadless.Supervisor
