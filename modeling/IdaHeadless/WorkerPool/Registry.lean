import IdaHeadless.WorkerPool.Flow

/-!
# What a move may do to the registry

The registry is `PoolInner`: the children, the reservations and the next id. A
task changes it only where it holds, or takes, the lock of `PoolInner`.
-/

namespace IdaHeadless.WorkerPool

/- The reservation a task holds. -/
def Pc.reserves : Pc → Option WorkerId
  | .warm _ (.spawn id) | .warm _ (.install id _) | .lease _ _ (.spawn id)
  | .lease _ _ (.install id _) | .retire _ _ (.spawn id) | .retire _ _ (.install id _)
  | .unreserve id _ => some id
  | _ => none

/- A task resumed at `pc` takes the registry from `s` to `s'`, and goes on to `q`. -/
inductive RegistryChange (pc : Pc) (s s' : Pool) (q : Pc) : Prop where
  | same (children : s'.children = s.children) (spawning : s'.spawning = s.spawning)
      (reserves : ∀ id, pc.reserves = some id → q.reserves = some id)
  | forgot (ids : List WorkerId) (dead : ∀ w ∈ ids, s.stateOf w = some .dead)
      (state : ∀ w, s'.stateOf w = s.stateOf w)
      (children : s'.children = s.children.filter (· ∉ ids))
      (spawning : s'.spawning = s.spawning) (before : pc.reserves = none)
  | reserved (ids : List WorkerId) (dead : ∀ w ∈ ids, s.stateOf w = some .dead)
      (state : ∀ w, s'.stateOf w = s.stateOf w)
      (children : s'.children = s.children.filter (· ∉ ids))
      (spawning : s'.spawning = insert s.nextId s.spawning) (before : pc.reserves = none)
      (reserves : q.reserves = some s.nextId)
  | installed (id : WorkerId) (live : s.stateOf id ≠ some .dead)
      (state : ∀ w, s'.stateOf w = s.stateOf w) (children : s'.children = s.children ++ [id])
      (spawning : s'.spawning = s.spawning.erase id) (before : pc.reserves = some id)
  | released (id : WorkerId) (state : ∀ w, s'.stateOf w = s.stateOf w)
      (children : s'.children = s.children) (spawning : s'.spawning = s.spawning.erase id)
      (failed : (∃ left err, pc = .warm left (.install id (some err))) ∨
        (∃ k timeout err, pc = .lease k timeout (.install id (some err))) ∨
        (∃ w ctx err, pc = .retire w ctx (.install id (some err))) ∨
        pc = .unreserve id false ∨
        (pc = .unreserve id true ∧ q = .retire id .reservation .take))

variable {cfg : Config} {own : Own} {s s' : Pool} {t : TaskId} {o : Outcome} {m : Move} {pc : Pc}
  {w : WorkerId}

theorem warm_registry {left : ℕ} {stage : WarmStage} (hg : Good cfg own s t (.warm left stage))
    (hm : WarmMove s left stage o m) : RegistryChange (.warm left stage) s m.mem m.point := by
  cases hm with
  | reserves left free =>
    exact .reserved [] (by simp) (fun _ => rfl) (by simp [Pool.reserve]) rfl rfl rfl
  | installed left id free =>
    have hst : s.stateOf id = some .idle := hg.2.2.2.2.2
    exact .installed id (by rw [hst]; simp) (fun _ => rfl) rfl rfl rfl
  | failed left id err free => exact .released id (fun _ => rfl) rfl rfl (.inl ⟨_, _, rfl⟩)
  | serves | spawned | spawnFailed => exact .same rfl rfl (by simp [Pc.reserves])

/- The end of a scan, or its next child. -/
theorem scanNext_registry {k : SessionRef} {timeout active : ℕ} {rest deadIds : List WorkerId}
    (hpc : pc.reserves = none) (hdead : ∀ w ∈ deadIds, s.stateOf w = some .dead)
    (hstate : ∀ w, s'.stateOf w = s.stateOf w) (hchildren : s'.children = s.children)
    (hspawning : s'.spawning = s.spawning) (hnext : s'.nextId = s.nextId) :
    RegistryChange pc s (scanNext cfg s' k timeout rest active deadIds).mem
      (scanNext cfg s' k timeout rest active deadIds).point := by
  unfold scanNext
  split
  · exact .same hchildren hspawning (by simp [hpc])
  · split
    · refine .forgot deadIds hdead hstate ?_ hspawning hpc
      rw [← hchildren]
      rfl
    · refine .reserved deadIds hdead hstate ?_ ?_ hpc (congrArg some hnext)
      · rw [← hchildren]
        rfl
      · rw [← hspawning, ← hnext]
        rfl

theorem lease_registry {k : SessionRef} {timeout : ℕ} {stage : LeaseStage}
    (hg : Good cfg own s t (.lease k timeout stage))
    (hm : LeaseMove cfg s t k timeout stage o m) :
    RegistryChange (.lease k timeout stage) s m.mem m.point := by
  cases hm with
  | scans free => exact scanNext_registry rfl (by simp) (fun _ => rfl) rfl rfl rfl
  | foundDead w rest active deadIds slot found dead =>
    refine scanNext_registry rfl (fun v hv => ?_) (fun _ => rfl) rfl rfl rfl
    rcases List.mem_append.mp hv with hv | hv
    · exact hg.2.2.2.1 v hv
    · rw [List.mem_singleton.mp hv, stateOf_eq found, dead]
  | foundBusy w rest active deadIds slot found live busy =>
    exact scanNext_registry rfl hg.2.2.2.1 (fun _ => rfl) rfl rfl rfl
  | installed id se free session =>
    obtain ⟨-, -, sessionId, -, hres⟩ := hg
    exact .installed id (by rw [hres.2.2]; simp) (fun _ => rfl) rfl rfl rfl
  | failed id err free =>
    exact .released id (fun _ => rfl) rfl rfl (.inr (.inl ⟨_, _, _, rfl⟩))
  | held | locked | granted | spawned | spawnFailed =>
    exact .same rfl rfl (by simp [Pc.reserves])

/- `retireDone` and `retireReplenish` release the call lock at most. -/
theorem retireDone_frame (s : Pool) (w : WorkerId) (ctx : RetireCtx) :
    (retireDone s w ctx).mem.children = s.children ∧
      (retireDone s w ctx).mem.spawning = s.spawning ∧
      ∀ v, (retireDone s w ctx).mem.stateOf v = s.stateOf v := by
  unfold retireDone
  dsimp only
  split
  · exact ⟨rfl, rfl, fun _ => stateOf_unlockCall⟩
  · exact ⟨rfl, rfl, fun _ => rfl⟩

theorem retireReplenish_frame (s : Pool) (w : WorkerId) (ctx : RetireCtx) :
    (retireReplenish s w ctx).mem.children = s.children ∧
      (retireReplenish s w ctx).mem.spawning = s.spawning ∧
      ∀ v, (retireReplenish s w ctx).mem.stateOf v = s.stateOf v := by
  unfold retireReplenish
  split
  · exact ⟨rfl, rfl, fun _ => rfl⟩
  · exact retireDone_frame s w ctx

theorem retire_registry {ctx : RetireCtx} {stage : RetireStage}
    (hg : Good cfg own s t (.retire w ctx stage)) (hm : RetireMove cfg s w ctx stage o m) :
    RegistryChange (.retire w ctx stage) s m.mem m.point := by
  obtain ⟨-, -, -, hst⟩ := hg
  have hforget : s.stateOf w = some .dead → ∀ v ∈ [w], s.stateOf v = some .dead := by
    intro hdead v hv
    rw [List.mem_singleton.mp hv]
    exact hdead
  cases hm with
  | forgotten free => exact .forgot [w] (hforget hst) (fun _ => rfl) rfl rfl rfl
  | forgottenDead free =>
    obtain ⟨hc, hs, hstate⟩ := retireReplenish_frame (s.forget [w]) w ctx
    exact .forgot [w] (hforget hst) hstate hc hs rfl
  | finished =>
    obtain ⟨hc, hs, -⟩ := retireReplenish_frame s w ctx
    exact .same hc hs (by simp [Pc.reserves])
  | enough satisfied =>
    obtain ⟨hc, hs, -⟩ := retireDone_frame s w ctx
    exact .same hc hs (by simp [Pc.reserves])
  | reserves wanted free below room =>
    exact .reserved [] (by simp) (fun _ => rfl) (by simp [Pool.reserve]) rfl rfl rfl
  | installed id free =>
    have hidle : s.stateOf id = some .idle := hst.2.2.2
    exact .installed id (by rw [hidle]; simp) (fun _ => rfl) rfl rfl rfl
  | failed id err free =>
    obtain ⟨hc, hs, hstate⟩ := retireDone_frame (s.finishReservation id false) w ctx
    exact .released id hstate hc hs (.inr (.inr (.inl ⟨_, _, _, rfl⟩)))
  | wasDead | killed | spawned | spawnFailed => exact .same rfl rfl (by simp [Pc.reserves])

theorem reap_registry {started : ℕ} {stage : ReapStage}
    (hg : Good cfg own s t (.reap w started stage)) (hm : ReapMove cfg s t w started stage o m) :
    RegistryChange (.reap w started stage) s m.mem m.point := by
  have hcount : ∀ s' rest live, s'.children = s.children → s'.spawning = s.spawning →
      RegistryChange (.reap w started stage) s (countNext cfg s' w started rest live).mem
        (countNext cfg s' w started rest live).point := by
    intro s' rest live hc hs
    unfold countNext
    split
    · exact .same hc hs (by simp [Pc.reserves])
    · split <;> exact .same hc hs (by simp [Pc.reserves])
  cases hm with
  | counts free => exact hcount _ _ _ rfl rfl
  | counted c rest live slot found => exact hcount _ _ _ rfl rfl
  | forgotten free =>
    refine .forgot [w] (fun v hv => ?_) (fun _ => rfl) rfl rfl rfl
    rw [List.mem_singleton.mp hv]
    exact hg.2.2
  | never | sleeps | wakes | kept | reaped | finished =>
    exact .same rfl rfl (by simp [Pc.reserves])

theorem advance_registry (hg : Good cfg own s t pc) (hm : advance cfg s t o pc = some m) :
    RegistryChange pc s m.mem m.point := by
  cases advance_moves hm with
  | warm left stage move => exact warm_registry hg move
  | lease k timeout stage move => exact lease_registry hg move
  | call k h caller timeout stage move =>
    cases move <;> exact .same rfl rfl (by simp [Pc.reserves])
  | release h save stage move => cases move <;> exact .same rfl rfl (by simp [Pc.reserves])
  | retire w ctx stage move => exact retire_registry hg move
  | reap w started stage move => exact reap_registry hg move
  | single outcome move =>
    cases move with
    | unreserved id built free =>
      cases built with
      | true => exact .released id (fun _ => rfl) rfl rfl (.inr (.inr (.inr (.inr ⟨rfl, rfl⟩))))
      | false => exact .released id (fun _ => rfl) rfl rfl (.inr (.inr (.inr (.inl rfl))))
    | _ => exact .same rfl rfl (by simp [Pc.reserves])

theorem dropTask_registry (hm : dropTask s t pc = some m) :
    m.mem.children = s.children ∧ m.mem.spawning = s.spawning := by
  unfold dropTask at hm
  split at hm <;> cases hm <;> exact ⟨rfl, rfl⟩

/- Only a resumed task changes the registry. -/
theorem step_registry {x x' : World} {a : Act} (h : step cfg x a = some x')
    (ha : ∀ u o, a ≠ .advance u o) :
    x'.mem.children = x.mem.children ∧ x'.mem.spawning = x.mem.spawning := by
  cases a with
  | newSession sessionId =>
    simp only [step] at h
    split at h <;> cases h
    exact ⟨rfl, rfl⟩
  | openObserved k timeoutSecs | callTool k tool timeoutSecs | closeWithSave k save =>
    rw [start_mem h]
    exact ⟨rfl, rfl⟩
  | dropSession k =>
    simp only [step] at h
    split at h
    · cases h
    · split at h <;> cases h
      exact ⟨rfl, rfl⟩
  | shutdownAll =>
    simp only [step] at h
    split at h <;> cases h
    exact ⟨rfl, rfl⟩
  | tick =>
    cases h
    exact ⟨rfl, rfl⟩
  | advance t o => exact absurd rfl (ha t o)
  | drop t =>
    obtain ⟨pc, m, hpc, hm, rfl⟩ := step_drop_iff.mp h
    exact dropTask_registry hm

end IdaHeadless.WorkerPool
