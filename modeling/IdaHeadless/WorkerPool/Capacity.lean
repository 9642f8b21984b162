import IdaHeadless.WorkerPool.Flow

/-!
# The capacity of the pool

Reservations and live children never exceed `max_workers`, an id is used once,
a dead slot stays dead, and `lease` refuses only a pool that was full.

The refusal is the hard part. `lease` counts the children one by one, and a child
it has counted may be idle again before the count ends. But while the count holds
the lock of `PoolInner` no idle child is granted, so every child it finds busy was
busy when it took the lock: that is the moment the last part speaks of.
-/

namespace IdaHeadless.WorkerPool

def Pool.busyOf (s : Pool) (l : List WorkerId) : List WorkerId :=
  l.filter fun w => s.stateOf w ≠ some .dead ∧ s.stateOf w ≠ some .idle

/- The places taken by reservations and by live children that are not idle. -/
def Pool.busy (s : Pool) : ℕ := s.spawning.card + (s.busyOf s.children).length

/- World `x` follows moment `u` of the scan of task `t`, which has held the lock of
`PoolInner` since. -/
structure Since (t : TaskId) (k : SessionRef) (timeout : ℕ) (u x : World) : Prop where
  lease : ∃ stage, u.tasks t = some (.lease k timeout stage)
  children : x.mem.children = u.mem.children
  spawning : x.mem.spawning = u.mem.spawning
  idle : ∀ w, u.mem.stateOf w = some .idle → OrDead x.mem w .idle
  dead : ∀ w, u.mem.stateOf w = some .dead → x.mem.stateOf w = some .dead
  count : ∀ rest active deadIds,
    x.tasks t = some (.lease k timeout (.scan rest active deadIds)) →
    ∃ seen, u.mem.children = seen ++ rest ∧
      active ≤ u.mem.spawning.card + (u.mem.busyOf seen).length

variable {cfg : Config} {own : Own} {s : Pool} {x x' u : World} {a : Act} {t : TaskId} {o : Outcome}
  {m : Move} {k : SessionRef} {timeout active : ℕ} {w : WorkerId} {rest deadIds : List WorkerId}

theorem busyOf_append (s : Pool) (l₁ l₂ : List WorkerId) :
    s.busyOf (l₁ ++ l₂) = s.busyOf l₁ ++ s.busyOf l₂ := List.filter_append ..

theorem busyOf_singleton (hdead : s.stateOf w ≠ some .dead) (hidle : s.stateOf w ≠ some .idle) :
    s.busyOf [w] = [w] := by
  simp [Pool.busyOf, hdead, hidle]

/- What the scan does with child `w`. -/
theorem scan_inv
    (h : advanceLease cfg s t k timeout (.scan (w :: rest) active deadIds) o = some m) :
    (s.stateOf w = some .dead ∧ m = scanNext cfg s k timeout rest active (deadIds ++ [w])) ∨
    (∃ h caller stage, m.point = .call k h caller timeout stage) ∨
    (s.stateOf w ≠ some .dead ∧ s.stateOf w ≠ some .idle ∧
      m = scanNext cfg s k timeout rest (active + 1) deadIds) := by
  cases advanceLease_move h with
  | foundDead w rest active deadIds slot found dead =>
    exact .inl ⟨by rw [stateOf_eq found, dead], rfl⟩
  | granted w rest active deadIds slot se found idle session =>
    exact .inr (.inl ⟨_, _, _, rfl⟩)
  | foundBusy w rest active deadIds slot found live busy =>
    refine .inr (.inr ⟨stateOf_ne_dead found live, ?_, rfl⟩)
    rw [stateOf_eq found]
    exact fun he => busy (Option.some.inj he)

/- While `t` scans, an idle child is not granted to another session. -/
theorem scan_idle (hI : Inv cfg own x) (h : step cfg x a = some x') (hinner : x.mem.inner = some t)
    (ha : ¬ a.Moves t) (hidle : x.mem.stateOf w = some .idle) : OrDead x'.mem w .idle := by
  rcases step_slot h w with ⟨hst, -⟩ | ⟨t', o, pc, rfl, hpc, hc⟩
  · exact .inl (hst.trans hidle)
  · have hgood := hI.good t' pc hpc
    cases hc with
    | same state sent => exact .inl (state.trans hidle)
    | builtIdle pc_eq state => exact .inl state
    | builtLeased k timeout sessionId pc_eq id state =>
      subst pc_eq
      have hnone := hgood.2.2.2.2
      rw [hidle] at hnone
      cases hnone
    | called k h caller timeout pc_eq worker before state => exact .inl (state.trans hidle)
    | granted k timeout active rest deadIds sessionId pc_eq before id state sent =>
      subst pc_eq
      have hmine : x.mem.inner = some t' := hgood.2.2.1
      rw [hinner] at hmine
      cases hmine
      exact absurd (.inr ⟨o, rfl⟩) ha
    | closing h save pc_eq worker before state =>
      subst pc_eq worker
      rcases hgood.2.2.2.2 with hd | hd <;> rw [hidle] at hd <;> cases hd
    | recycled h save pc_eq worker before state path => exact .inl state
    | retired ctx pc_eq state sent => exact .inr state
    | reaped started pc_eq before state sent => exact .inr state

theorem Since.refl (hlease : x.tasks t = some (.lease k timeout (.scan rest active deadIds)))
    (hrest : x.mem.children = rest) (hactive : active = x.mem.spawning.card) :
    Since t k timeout x x := by
  refine ⟨⟨_, hlease⟩, rfl, rfl, fun w h => .inl h, fun w h => h, ?_⟩
  intro rest' active' deadIds' h
  rw [hlease] at h
  cases h
  exact ⟨[], hrest, by omega⟩

/- Task `t` itself goes on with its scan. -/
theorem Since.next (hS : Since t k timeout u x)
    (hpc : x.tasks t = some (.lease k timeout (.scan (w :: rest) active deadIds)))
    (hm : advanceLease cfg x.mem t k timeout (.scan (w :: rest) active deadIds) o = some m)
    (hlt : t < x.next) {rest' deadIds' : List WorkerId} {active' : ℕ}
    (hpoint : m.point = .lease k timeout (.scan rest' active' deadIds')) :
    Since t k timeout u (x.resume t m) := by
  obtain ⟨seen, hseen, hle⟩ := hS.count _ _ _ hpc
  -- the count of the slots seen now, at the old moment
  have hbusy :
      ∀ b : ℕ, (b = 0 ∨ (x.mem.stateOf w ≠ some .dead ∧ x.mem.stateOf w ≠ some .idle ∧ b = 1)) →
      active + b ≤ u.mem.spawning.card + (u.mem.busyOf (seen ++ [w])).length := by
    intro b hb
    rw [busyOf_append, List.length_append]
    rcases hb with rfl | ⟨hd, hi, rfl⟩
    · omega
    · have hu : u.mem.busyOf [w] = [w] := by
        refine busyOf_singleton (fun h => hd (hS.dead w h)) fun h => ?_
        rcases hS.idle w h with h' | h'
        · exact hi h'
        · exact hd h'
      rw [hu, List.length_singleton]
      omega
  have hfinish : ∀ b dead, m = scanNext cfg x.mem k timeout rest (active + b) dead →
      (b = 0 ∨ (x.mem.stateOf w ≠ some .dead ∧ x.mem.stateOf w ≠ some .idle ∧ b = 1)) →
      Since t k timeout u (x.resume t m) := by
    intro b dead he hb
    unfold scanNext at he
    split at he
    · subst he
      refine ⟨hS.lease, hS.children, hS.spawning, hS.idle, hS.dead, ?_⟩
      intro rest'' active'' deadIds'' h
      rw [Tasks.resume_self _ hlt] at h
      cases h
      exact ⟨seen ++ [w], by rw [hseen]; simp, hbusy b hb⟩
    · split at he <;> subst he <;> cases hpoint
  rcases scan_inv hm with ⟨-, he⟩ | ⟨h, caller, stage, he⟩ | ⟨hd, hi, he⟩
  · exact hfinish 0 _ he (.inl rfl)
  · rw [he] at hpoint
    cases hpoint
  · exact hfinish 1 _ he (.inr ⟨hd, hi, rfl⟩)

/- One step of the remembering rule for the scan of `t`. -/
theorem scan_since (hI : Inv cfg own x) (h : step cfg x a = some x')
    (ht : x'.tasks t = some (.lease k timeout (.scan rest active deadIds))) :
    Since t k timeout x' x' ∨
      ((∃ rest active deadIds, x.tasks t = some (.lease k timeout (.scan rest active deadIds))) ∧
        ∀ u, Since t k timeout u x → Since t k timeout u x') := by
  cases step_task h ht with
  | kept before other =>
    refine .inr ⟨⟨_, _, _, before⟩, fun u hu => ?_⟩
    have hinner : x.mem.inner = some t := (hI.good t _ before).2.2.1
    obtain ⟨own', -, hages, hrely⟩ := step_inv hI h
    obtain ⟨-, hchildren, hspawning⟩ := (hrely t other).inner hinner
    refine ⟨hu.lease, hchildren.trans hu.children, hspawning.trans hu.spawning, ?_,
      fun w hw => hages.dead w (hu.dead w hw), ?_⟩
    · intro w hw
      rcases hu.idle w hw with hi | hd
      · exact scan_idle hI h hinner other hi
      · exact .inr (hages.dead w hd)
    · intro rest' active' deadIds' ht'
      rw [ht] at ht'
      cases ht'
      exact hu.count _ _ _ before
  | moved o p m act before move point world =>
    subst world
    have hlt := hI.lt_next before
    rcases advance_goes move with hf | ⟨exit, he, -⟩
    · rw [← point] at hf
      cases hf with
      | scanFirst =>
        left
        cases advanceLease_move move with
        | scans free =>
          refine Since.refl ht ?_ ?_ <;> unfold scanNext at point ⊢ <;> split at point
          · cases point
            rfl
          · split at point <;> cases point
          · cases point
            rfl
          · split at point <;> cases point
      | scanNext _ _ v _ active₀ _ deadIds₀ _ =>
        exact .inr ⟨⟨_, _, _, before⟩, fun u hu => hu.next before move hlt point.symm⟩
    · rw [← point] at he
      cases he
  | dropped p m act before move point world =>
    obtain ⟨exit, he⟩ := dropTask_point move
    rw [← point] at he
    cases he
  | started before start =>
    cases start with
    | drops t' pc p pc_eq left => cases left

/- `lease` refuses at the end of a scan: the pool was full when the scan began. -/
theorem scan_refuses (hS : Since t k timeout u x)
    (hpc : x.tasks t = some (.lease k timeout (.scan (w :: rest) active deadIds)))
    (hm : advanceLease cfg x.mem t k timeout (.scan (w :: rest) active deadIds) o = some m)
    {e : ToolError} (hpoint : m.point = .done (.err e)) : cfg.maxWorkers ≤ u.mem.busy := by
  obtain ⟨seen, hseen, hle⟩ := hS.count _ _ _ hpc
  have hfull : ∀ b dead, m = scanNext cfg x.mem k timeout rest (active + b) dead →
      rest = [] ∧ cfg.maxWorkers ≤ active + b := by
    intro b dead he
    unfold scanNext at he
    split at he
    · subst he
      cases hpoint
    · split at he
      · exact ⟨rfl, ‹_›⟩
      · subst he
        cases hpoint
  have hbusy : rest = [] → u.mem.busy =
      u.mem.spawning.card + (u.mem.busyOf seen).length + (u.mem.busyOf [w]).length := by
    intro hrest
    unfold Pool.busy
    rw [hseen, hrest, busyOf_append, List.length_append]
    omega
  rcases scan_inv hm with ⟨-, he⟩ | ⟨h, caller, stage, he⟩ | ⟨hd, hi, he⟩
  · obtain ⟨hrest, hmax⟩ := hfull 0 _ he
    rw [hbusy hrest]
    omega
  · rw [he] at hpoint
    cases hpoint
  · obtain ⟨hrest, hmax⟩ := hfull 1 _ he
    have hu : u.mem.busyOf [w] = [w] := by
      refine busyOf_singleton (fun h => hd (hS.dead w h)) fun h => ?_
      rcases hS.idle w h with h' | h'
      · exact hi h'
      · exact hd h'
    rw [hbusy hrest, hu, List.length_singleton]
    omega

/- `finish_spawn_reservation` passes on the error of the spawn. -/
theorem install_error {id : WorkerId} {failed : Option ToolError} {e : ToolError}
    (hm : advanceLease cfg s t k timeout (.install id failed) o = some m)
    (hpoint : m.point = .done (.err e)) : failed = some e := by
  cases advanceLease_move hm with
  | installed id se free session => cases hpoint
  | failed id err free =>
    cases hpoint
    rfl

/- `lease` returns `PoolExhausted`: some moment of that call had no free place. -/
theorem lease_exhausted {as : List Act} {stage : LeaseStage} {n max : ℕ}
    (hrun : Runs.run (step cfg) (init cfg) as = some x)
    (hpc : x.tasks t = some (.lease k timeout stage))
    (h : step cfg x (.advance t o) = some x')
    (hend : x'.tasks t = some (.done (.err (.poolExhausted n max)))) :
    ∃ bs cs v stage', as = bs ++ cs ∧ Runs.run (step cfg) (init cfg) bs = some v ∧
      Runs.run (step cfg) v cs = some x ∧ v.tasks t = some (.lease k timeout stage') ∧
      cfg.maxWorkers ≤ v.mem.busy := by
  obtain ⟨own, hI⟩ := reachable_inv ⟨as, hrun⟩
  have hgood := hI.good t _ hpc
  obtain ⟨m, hm, rfl⟩ := step_advance_at hpc h
  rw [Tasks.resume_self _ (hI.lt_next hpc)] at hend
  have hpoint : m.point = .done (.err (.poolExhausted n max)) := Option.some.inj hend
  cases stage with
  | scan rest active deadIds =>
    cases rest with
    | nil => cases o <;> cases hm
    | cons w rest =>
      -- the moment is where the scan began
      obtain ⟨bs, cs, v, rfl, hv, hvx, hS⟩ := Runs.run_since
        (fun v => ∃ own, Inv cfg own v)
        (fun v => ∃ rest active deadIds,
          v.tasks t = some (.lease k timeout (.scan rest active deadIds)))
        (Q := Since t k timeout)
        (fun v a v' hv hstep => by
          obtain ⟨own, hv⟩ := hv
          obtain ⟨own', hv', -⟩ := step_inv hv hstep
          exact ⟨own', hv'⟩)
        (fun v a v' hv hstep hin => by
          obtain ⟨own, hv⟩ := hv
          obtain ⟨rest, active, deadIds, ht⟩ := hin
          exact scan_since hv hstep ht)
        ⟨_, init_inv cfg⟩
        (by
          rintro ⟨rest, active, deadIds, ht⟩
          simp only [init] at ht
          split at ht <;> cases ht)
        hrun ⟨_, _, _, hpc⟩
      obtain ⟨stage', hstage'⟩ := hS.lease
      exact ⟨bs, cs, v, stage', rfl, hv, hvx, hstage', scan_refuses hS hpc hm hpoint⟩
  | inner =>
    refine ⟨as, [], x, .inner, by simp, hrun, rfl, hpc, ?_⟩
    cases advanceLease_move hm with
    | scans free =>
      unfold scanNext at hpoint
      split at hpoint
      · cases hpoint
      · split at hpoint
        · rename_i hmax
          unfold Pool.busy
          omega
        · cases hpoint
  | install id failed =>
    obtain rfl := install_error hm hpoint
    obtain ⟨-, -, -, text, he⟩ := hgood
    cases he
  | handle | spawn id =>
    cases advanceLease_move hm <;> cases hpoint

/-! ### Ids and the dead over a run -/

theorem run_ages {as : List Act} (hI : ∃ own, Inv cfg own u)
    (h : Runs.run (step cfg) u as = some x) : Ages u.mem x.mem := by
  refine run_pool_keeps (P := fun v => Ages u.mem v.mem) ?_ hI (Ages.refl _) h
  intro own v a v' hv hages hstep
  obtain ⟨own', -, hages', -⟩ := step_inv hv hstep
  exact hages.trans hages'

/-- In every run the live children and the reservations do not exceed the limit, an id is given out
once and a dead worker stays dead, and a lease that was refused has seen all workers busy at one
moment since it began. -/
theorem pool_capacity {as bs : List Act} (hu : Runs.run (step cfg) (init cfg) as = some u)
    (hx : Runs.run (step cfg) u bs = some x) :
    x.mem.liveOrReserved ≤ cfg.maxWorkers ∧
    (x.mem.children.Nodup ∧ ∀ w ∈ x.mem.spawning, w ∉ x.mem.children) ∧
    (∀ w, w ∈ u.mem.spawning ∨ w ∈ u.mem.children ∨ u.mem.stateOf w ≠ none →
      w < u.mem.nextId) ∧
    (∀ w, w < u.mem.nextId → (w ∈ x.mem.spawning → w ∈ u.mem.spawning) ∧
      (w ∈ x.mem.children → w ∈ u.mem.children ∨ w ∈ u.mem.spawning)) ∧
    (∀ w, u.mem.stateOf w = some .dead → x.mem.stateOf w = some .dead) ∧
    (∀ t o x' k timeout stage n max, x.tasks t = some (.lease k timeout stage) →
      step cfg x (.advance t o) = some x' →
      x'.tasks t = some (.done (.err (.poolExhausted n max))) →
      ∃ cs ds v stage', as ++ bs = cs ++ ds ∧ Runs.run (step cfg) (init cfg) cs = some v ∧
        Runs.run (step cfg) v ds = some x ∧ v.tasks t = some (.lease k timeout stage') ∧
        cfg.maxWorkers ≤ v.mem.busy) := by
  have hrun : Runs.run (step cfg) (init cfg) (as ++ bs) = some x :=
    Runs.run_append_iff.mpr ⟨u, hu, hx⟩
  obtain ⟨own, hIu⟩ := reachable_inv ⟨as, hu⟩
  obtain ⟨own', hIx⟩ := reachable_inv ⟨as ++ bs, hrun⟩
  have hages := run_ages ⟨own, hIu⟩ hx
  refine ⟨hIx.global.cap, ⟨hIx.global.children_nodup, ?_⟩, ?_, ?_, hages.dead, ?_⟩
  · intro w hw hc
    exact (hIx.global.children_known w hc).2 hw
  · intro w hw
    rcases hw with h | h | h
    · exact hIu.global.spawning_lt w h
    · exact hIu.global.slot_lt w (hIu.global.children_known w h).1
    · exact hIu.global.slot_lt w h
  · intro w hw
    refine ⟨fun h => ?_, fun h => ?_⟩
    · rcases hages.spawning w h with h' | h'
      · exact h'
      · exact absurd hw (Nat.not_lt.mpr h')
    · rcases hages.children w h with h' | h' | h'
      · exact .inl h'
      · exact .inr h'
      · exact absurd hw (Nat.not_lt.mpr h')
  · intro t o x' k timeout stage n max hpc hstep hend
    exact lease_exhausted hrun hpc hstep hend

/- Session A has the only worker, session B asks for one. -/
def onlyWorker : List Act :=
  [go 0, .newSession "A", .newSession "B", .openObserved 0 none, go 1, go 1, .advance 1 .spawned,
    go 1]
def secondOpen : List Act := [.openObserved 1 none, go 2, go 2]

theorem pool_capacity_second_open :
    ∃ x,
      Runs.run (step ⟨1, 0, 300, 600⟩) (init ⟨1, 0, 300, 600⟩) (onlyWorker ++ secondOpen) = some x ∧
      x.mem.liveOrReserved ≤ 1 ∧
      ∃ cs ds v stage', onlyWorker ++ secondOpen = cs ++ ds ∧
        Runs.run (step ⟨1, 0, 300, 600⟩) (init ⟨1, 0, 300, 600⟩) cs = some v ∧
        Runs.run (step ⟨1, 0, 300, 600⟩) v ds = some x ∧
        v.tasks 2 = some (.lease 1 600 stage') ∧ 1 ≤ v.mem.busy := by
  have hrun : (Runs.run (step ⟨1, 0, 300, 600⟩) (init ⟨1, 0, 300, 600⟩)
      (onlyWorker ++ secondOpen)).any (fun x =>
        decide (x.tasks 2 = some (.lease 1 600 (.scan [0] 0 []))) &&
        (step ⟨1, 0, 300, 600⟩ x (go 2)).any fun x' =>
          decide (x'.tasks 2 = some (.done (.err (.poolExhausted 1 1))))) = true := by
    decide +kernel
  obtain ⟨x, hx, hp⟩ := (Option.any_eq_true _ _).mp hrun
  obtain ⟨hpc, hend⟩ := Bool.and_eq_true_iff.mp hp
  obtain ⟨x', hx', hend⟩ := (Option.any_eq_true _ _).mp hend
  obtain ⟨u, hu, hux⟩ := Runs.run_append_iff.mp hx
  have hcap := pool_capacity hu hux
  exact ⟨x, hx, hcap.1, hcap.2.2.2.2.2 2 .go x' 1 600 _ 1 1 (of_decide_eq_true hpc) hx'
    (of_decide_eq_true hend)⟩

end IdaHeadless.WorkerPool
