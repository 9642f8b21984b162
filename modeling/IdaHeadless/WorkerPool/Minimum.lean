import IdaHeadless.WorkerPool.Registry

/-!
# The minimum of the pool

`ensure_min_workers` keeps `min(min_workers, max_workers)` live children: each
retirement checks the count again after it took its slot out of the children. The
check counts `children.len()`, so a slot that the idle reap has killed and not yet
taken out counts as a worker, and the reap itself never checks. Where no such slot
is counted, the minimum holds whenever the pool is quiet.
-/

namespace IdaHeadless.WorkerPool

/- The task has still to run the check of `ensure_min_workers`. -/
def Pc.owes : Pc → Bool
  | .retire _ .shutdown _ | .retire _ (.call ..) .take | .retire _ (.release ..) .take
  | .retire _ (.dispatch ..) .take => false
  | .retire .. | .unreserve _ true => true
  | _ => false

def Owing (x : World) : Prop := ∃ u p, x.tasks u = some p ∧ p.owes = true

/- The task has still to take slot `w`, which is dead, out of the children. -/
def Pc.forgets : Pc → Option WorkerId
  | .retire w _ (.forget _) | .retire w (.guard ..) .take | .reap w _ .forget => some w
  | _ => none

/- The slot that the idle reap has killed and not yet taken out of the children. -/
def Pc.reaping : Pc → Option WorkerId
  | .reap w _ .forget => some w
  | _ => none

/- The task belongs to a shutdown, or to a spawn that failed or was cut off. -/
def Pc.disturbed : Pc → Bool
  | .retire _ .shutdown _ | .warm _ (.install _ (some _)) | .lease _ _ (.install _ (some _))
  | .retire _ _ (.install _ (some _)) | .unreserve _ false => true
  | _ => false

/- No shutdown, no spawn that fails, and no future dropped inside a spawn or inside
a `mark_dead` that no guard repeats. -/
def Undisturbed (x : World) : Act → Prop
  | .shutdownAll | .advance _ (.spawnFailed ..) => False
  | .drop t =>
    match x.tasks t with
    | some (.lease _ _ (.spawn _)) | some (.retire _ _ (.spawn _)) => False
    | some (.retire _ (.dispatch ..) stage) => stage = .take
    | _ => True
  | _ => True

/- When `ensure_min_workers` counts, no child waits to be taken out by an idle reap. -/
def CountsLive (x : World) : Act → Prop
  | .advance t _ =>
    match x.tasks t with
    | some (.retire _ _ .check) =>
      ∀ w ∈ x.mem.children, ∀ u < x.next, (x.tasks u).bind Pc.reaping ≠ some w
    | _ => True
  | _ => True

instance (x : World) (a : Act) : Decidable (Undisturbed x a) := by
  unfold Undisturbed
  rcases a with ⟨⟩ <;> try infer_instance
  · rename_i o
    rcases o with ⟨⟩ <;> infer_instance
  · rename_i t
    dsimp only
    generalize x.tasks t = p
    rcases p with _ | ⟨⟨⟩⟩ <;> try infer_instance
    · rename_i stage
      rcases stage with ⟨⟩ <;> infer_instance
    · rename_i ctx stage
      rcases stage with ⟨⟩ <;> rcases ctx with ⟨⟩ <;> infer_instance

instance (x : World) (a : Act) : Decidable (CountsLive x a) := by
  unfold CountsLive
  rcases a with ⟨⟩ <;> try infer_instance
  rename_i t _
  dsimp only
  generalize x.tasks t = p
  rcases p with _ | ⟨⟨⟩⟩ <;> try infer_instance
  rename_i stage
  rcases stage with ⟨⟩ <;> infer_instance

structure MinInv (cfg : Config) (x : World) : Prop where
  calm : ∀ u p, x.tasks u = some p → p.disturbed = false
  forgotten : ∀ w ∈ x.mem.children, x.mem.stateOf w = some .dead →
    ∃ u p, x.tasks u = some p ∧ p.forgets = some w
  held : ∀ id ∈ x.mem.spawning, ∃ u p, x.tasks u = some p ∧ p.reserves = some id
  counted : ∀ u w started rest live, x.tasks u = some (.reap w started (.count rest live)) →
    ∃ seen, x.mem.children = seen ++ rest ∧
      (live ≤ x.mem.spawning.card + (x.mem.liveOf seen).length ∨ Owing x)
  above : ∀ u w started, x.tasks u = some (.reap w started .take) →
    cfg.minWorkers < x.mem.liveOrReserved ∨ Owing x
  warm : ∀ left stage, x.tasks 0 = some (.warm left stage) →
    cfg.min ≤ x.mem.liveOrReserved + left
  minimum : x.mem.serving = true → cfg.min ≤ x.mem.liveOrReserved ∨ Owing x

variable {cfg : Config} {own : Own} {s s' : Pool} {x x' : World} {a : Act} {t u : TaskId}
  {o : Outcome} {m : Move} {w : WorkerId} {p q : Pc}

/-! ### The end of a retirement -/

/- A retirement leaves `ensure_min_workers` with a count that reaches the minimum. -/
theorem retire_ends {ctx : RetireCtx} {stage : RetireStage} (hmin : cfg.min ≠ 0)
    (hcalm : (Pc.retire w ctx stage).disturbed = false)
    (hm : advanceRetire cfg s w ctx stage o = some m) :
    (∃ stage', stage' ≠ .take ∧ m.point = .retire w ctx stage') ∨
    (stage = .check ∧ s.inner = none ∧ cfg.min ≤ s.spawning.card + s.children.length) := by
  have hle : cfg.min ≤ cfg.maxWorkers := Nat.min_le_right _ _
  have hreplenish : ∀ s', (retireReplenish s' w ctx).point = .retire w ctx .check := by
    intro s'
    cases ctx <;> first | rfl | cases hcalm
  cases advanceRetire_move hm with
  | forgottenDead free => exact .inl ⟨_, by simp, hreplenish _⟩
  | finished => exact .inl ⟨_, by simp, hreplenish _⟩
  | enough satisfied =>
    rcases satisfied with hzero | ⟨hi, hcount⟩
    · exact absurd hzero hmin
    · exact .inr ⟨rfl, hi, by omega⟩
  | failed id err free => cases ctx <;> cases hcalm
  | wasDead | killed | forgotten | reserves | spawned | spawnFailed | installed =>
    exact .inl ⟨_, by simp, rfl⟩

theorem calm_replenishes {ctx : RetireCtx} {stage : RetireStage}
    (hcalm : (Pc.retire w ctx stage).disturbed = false) : ctx.replenish = true := by
  cases ctx <;> first | rfl | cases hcalm

theorem owes_retire {ctx : RetireCtx} {stage : RetireStage} (hctx : ctx.replenish = true)
    (hstage : stage ≠ .take) : (Pc.retire w ctx stage).owes = true := by
  cases ctx <;> cases stage <;> first | rfl | exact absurd rfl hstage | cases hctx

/- The step is a check that found enough workers. -/
def CheckEnds (cfg : Config) (x : World) (a : Act) : Prop :=
  ∃ u o w ctx, a = .advance u o ∧ x.tasks u = some (.retire w ctx .check) ∧
    x.mem.inner = none ∧ cfg.min ≤ x.mem.spawning.card + x.mem.children.length

theorem owing_step (hmin : cfg.min ≠ 0) (hI : Inv cfg own x)
    (hcalm : ∀ u p, x.tasks u = some p → p.disturbed = false) (hU : Undisturbed x a)
    (h : step cfg x a = some x') (hO : Owing x) : Owing x' ∨ CheckEnds cfg x a := by
  obtain ⟨u, p, hp, howes⟩ := hO
  have hlt := hI.lt_next hp
  by_cases hmoves : a.Moves u
  · rcases hmoves with rfl | ⟨o, rfl⟩
    · -- dropped: the armed guard takes over
      obtain ⟨m, hm, rfl⟩ := step_drop_at hp h
      left
      cases p with
      | retire w ctx stage =>
        cases ctx with
        | call k sessionId caller err | release sessionId save err =>
          cases hm
          exact ⟨x.next + 0, _, Tasks.spawn_new rfl, rfl⟩
        | dispatch k sessionId err =>
          cases stage with
          | take => cases howes
          | spawn id => simp [Undisturbed, hp] at hU
          | forget _ | finish | check | install _ _ => simp [Undisturbed, hp] at hU
        | guard | reservation | shutdown => cases hm
      | unreserve id built => cases hm
      | _ => cases howes
    · obtain ⟨m, hm, rfl⟩ := step_advance_at hp h
      have hself := Tasks.resume_self m hlt
      cases p with
      | retire w ctx stage =>
        rcases retire_ends hmin (hcalm u _ hp) hm with ⟨stage', hstage', hpoint⟩ | ⟨rfl, hi, hcount⟩
        · rw [hpoint] at hself
          exact .inl ⟨u, _, hself, owes_retire (calm_replenishes (hcalm u _ hp)) hstage'⟩
        · exact .inr ⟨u, o, w, ctx, rfl, hp, hi, hcount⟩
      | unreserve id built =>
        cases built with
        | false => cases howes
        | true =>
          cases advance_moves hm with
          | single outcome move =>
            cases move with
            | unreserved id built free => exact .inl ⟨u, _, hself, rfl⟩
      | _ => cases howes
  · exact .inl ⟨u, p, step_kept hI h hp hmoves, howes⟩

/-! ### How the number of workers changes -/

/- At most slot `w` of `l` died. -/
theorem liveOf_kill {l : List WorkerId} (hl : l.Nodup)
    (hkeep : ∀ v ∈ l, v ≠ w → s.stateOf v ≠ some .dead → s'.stateOf v ≠ some .dead) :
    (s.liveOf l).length ≤ (s'.liveOf l).length + 1 := by
  have hsub : s.liveOf l ⊆ w :: s'.liveOf l := by
    intro v hv
    obtain ⟨hmem, hlive⟩ := List.mem_filter.mp hv
    by_cases hvw : v = w
    · rw [hvw]
      exact List.mem_cons_self
    · refine List.mem_cons_of_mem _ (List.mem_filter.mpr ⟨hmem, ?_⟩)
      exact decide_eq_true (hkeep v hmem hvw (of_decide_eq_true hlive))
  exact (List.subperm_of_subset (hl.filter _) hsub).length_le

/- No slot of `l` died. -/
theorem liveOf_keep {l : List WorkerId}
    (hkeep : ∀ v ∈ l, s.stateOf v ≠ some .dead → s'.stateOf v ≠ some .dead) :
    (s.liveOf l).length ≤ (s'.liveOf l).length := by
  refine (List.Sublist.length_le ?_)
  have heq : s.liveOf l = (s'.liveOf l).filter fun v => s.stateOf v ≠ some .dead := by
    unfold Pool.liveOf
    rw [List.filter_filter]
    refine List.filter_congr fun v hv => ?_
    by_cases hd : s.stateOf v = some .dead
    · simp [hd]
    · simp [hd, hkeep v hv hd]
  rw [heq]
  exact List.filter_sublist

/- The slots that die in a resumption: of a retirement or of an idle reap. -/
theorem SlotChange.kills (hc : SlotChange p s s' w) (hlive : s.stateOf w ≠ some .dead)
    (hdead : s'.stateOf w = some .dead) :
    (∃ ctx, p = .retire w ctx .take) ∨ ∃ started, p = .reap w started .take := by
  cases hc with
  | retired ctx pc_eq => exact .inl ⟨ctx, pc_eq⟩
  | reaped started pc_eq => exact .inr ⟨started, pc_eq⟩
  | same state | called _ _ _ _ _ _ _ state =>
    rw [state] at hdead
    exact absurd hdead hlive
  | builtIdle _ state | builtLeased _ _ _ _ _ state | granted _ _ _ _ _ _ _ _ _ state
  | closing _ _ _ _ _ state | recycled _ _ _ _ _ state =>
    rw [state] at hdead
    cases hdead

/- Forgetting dead slots, `live` is as it was. -/
theorem live_forget {ids : List WorkerId} (hdead : ∀ w ∈ ids, s.stateOf w = some .dead)
    (hstate : ∀ w, s'.stateOf w = s.stateOf w)
    (hchildren : s'.children = s.children.filter (· ∉ ids)) : s'.live = s.live := by
  unfold Pool.live
  rw [hchildren, List.filter_filter]
  refine List.filter_congr fun v hv => ?_
  rw [hstate]
  by_cases hd : s.stateOf v = some .dead
  · simp [hd]
  · have hid : v ∉ ids := fun h => hd (hdead v h)
    simp [hd, hid]

/- A reservation that a task holds is in `spawning`. -/
theorem reserves_mem {id : WorkerId} (hg : Good cfg own s t p) (hp : p.reserves = some id) :
    id ∈ s.spawning := by
  unfold Pc.reserves at hp
  split at hp <;> cases hp
  · exact hg.2.2.2.1
  · rename_i failed
    cases failed <;> exact hg.2.2.2.1
  · exact hg.2.2.1
  · rename_i failed
    cases failed with
    | none =>
      obtain ⟨-, -, sessionId, -, hres⟩ := hg
      exact hres.1
    | some err => exact hg.2.2.1.1
  · exact hg.2.2.2.2.1
  · rename_i failed
    cases failed <;> exact hg.2.2.2.2.1
  · rename_i built
    cases built with
    | false => exact hg.2.1
    | true =>
      obtain ⟨-, x, hres⟩ := hg
      exact hres.1

/- Reservations and live children after a resumption. -/
theorem liveOrReserved_advance (hG : Global cfg own s) (hg : Good cfg own s t p)
    (hcalm : p.disturbed = false) (hm : advance cfg s t o p = some m) :
    s.liveOrReserved ≤ m.mem.liveOrReserved ∨
    (s.liveOrReserved ≤ m.mem.liveOrReserved + 1 ∧
      ((∃ w ctx, p = .retire w ctx .take) ∨ (∃ w started, p = .reap w started .take) ∨
        ∃ id, p = .unreserve id true)) := by
  cases advance_registry hg hm with
  | same children spawning reserves =>
    unfold Pool.liveOrReserved
    rw [spawning]
    by_cases hkill : ∃ w ∈ s.children, s.stateOf w ≠ some .dead ∧ m.mem.stateOf w = some .dead
    · obtain ⟨w, -, hlw, hdw⟩ := hkill
      have hkills := (advance_slot hm w).kills hlw hdw
      refine .inr ⟨?_, ?_⟩
      · have hle : (s.liveOf s.children).length ≤ (m.mem.liveOf s.children).length + 1 := by
          refine liveOf_kill hG.children_nodup (w := w) fun v hv hne hlv hdv => ?_
          -- the same task kills at most one slot
          rcases (advance_slot hm v).kills hlv hdv with ⟨ctx, rfl⟩ | ⟨started, rfl⟩
          · rcases hkills with ⟨ctx', he⟩ | ⟨_, he⟩ <;> cases he
            exact hne rfl
          · rcases hkills with ⟨_, he⟩ | ⟨_, he⟩ <;> cases he
            exact hne rfl
        have hl : m.mem.live = m.mem.liveOf s.children := by
          unfold Pool.live Pool.liveOf
          rw [children]
        rw [hl]
        exact Nat.add_le_add_left hle _
      · rcases hkills with ⟨ctx, he⟩ | ⟨started, he⟩
        · exact .inl ⟨w, ctx, he⟩
        · exact .inr (.inl ⟨w, started, he⟩)
    · left
      have hle : (s.liveOf s.children).length ≤ (m.mem.liveOf s.children).length := by
        refine liveOf_keep fun v hv hlv hdv => hkill ⟨v, hv, hlv, hdv⟩
      have hl : m.mem.live = m.mem.liveOf s.children := by
        unfold Pool.live Pool.liveOf
        rw [children]
      rw [hl]
      exact Nat.add_le_add_left hle _
  | forgot ids dead state children spawning before =>
    left
    unfold Pool.liveOrReserved
    rw [spawning, live_forget dead state children]
  | reserved ids dead state children spawning before reserves =>
    left
    unfold Pool.liveOrReserved
    rw [spawning, live_forget dead state children,
      Finset.card_insert_of_notMem (nextId_unused hG).1]
    omega
  | installed id live state children spawning before =>
    left
    have hmem : id ∈ s.spawning := reserves_mem hg before
    have hl : m.mem.live = s.live ++ [id] := by
      unfold Pool.live
      rw [children, List.filter_append]
      simp [state, live]
    unfold Pool.liveOrReserved
    rw [spawning, hl, List.length_append, List.length_singleton]
    have hcard := Finset.card_erase_add_one hmem
    omega
  | released id state children spawning failed =>
    rcases failed with
      ⟨left, err, rfl⟩ | ⟨k, timeout, err, rfl⟩ | ⟨w, ctx, err, rfl⟩ | rfl | ⟨rfl, -⟩
    · cases hcalm
    · cases hcalm
    · cases ctx <;> cases hcalm
    · cases hcalm
    · refine .inr ⟨?_, .inr (.inr ⟨id, rfl⟩)⟩
      have hl : m.mem.live = s.live := by
        unfold Pool.live
        rw [children]
        exact List.filter_congr fun v _ => by rw [state]
      unfold Pool.liveOrReserved
      rw [spawning, hl]
      have hcard := Finset.pred_card_le_card_erase (s := s.spawning) (a := id)
      omega

theorem liveOrReserved_step (hmin : cfg.min ≠ 0) (hI : Inv cfg own x)
    (hcalm : ∀ u p, x.tasks u = some p → p.disturbed = false) (h : step cfg x a = some x') :
    x.mem.liveOrReserved ≤ x'.mem.liveOrReserved ∨ Owing x' ∨
    ∃ u o w started, a = .advance u o ∧ x.tasks u = some (.reap w started .take) ∧
      x.mem.liveOrReserved ≤ x'.mem.liveOrReserved + 1 := by
  by_cases ha : ∃ u o, a = .advance u o
  · obtain ⟨u, o, rfl⟩ := ha
    obtain ⟨p, m, hp, hm, rfl⟩ := step_advance_iff.mp h
    have hself := Tasks.resume_self m (hI.lt_next hp)
    rcases liveOrReserved_advance hI.global (hI.good u p hp) (hcalm u p hp) hm with
      hle | ⟨hle, hkind⟩
    · exact .inl hle
    · rcases hkind with ⟨w, ctx, rfl⟩ | ⟨w, started, rfl⟩ | ⟨id, rfl⟩
      · rcases retire_ends hmin (hcalm u _ hp) hm with ⟨stage', hstage', hpoint⟩ | ⟨he, -⟩
        · rw [hpoint] at hself
          exact .inr (.inl ⟨u, _, hself, owes_retire (calm_replenishes (hcalm u _ hp)) hstage'⟩)
        · cases he
      · exact .inr (.inr ⟨u, o, w, started, rfl, hp, hle⟩)
      · cases advance_moves hm with
        | single outcome move =>
          cases move with
          | unreserved id built free => exact .inr (.inl ⟨u, _, hself, rfl⟩)
  · left
    obtain ⟨hc, hs⟩ := step_registry h fun u o he => ha ⟨u, o, he⟩
    have hstate : ∀ w, x'.mem.stateOf w = x.mem.stateOf w := by
      intro w
      rcases step_slot h w with ⟨hst, -⟩ | ⟨u, o, p, he, -⟩
      · exact hst
      · exact absurd ⟨u, o, he⟩ ha
    unfold Pool.liveOrReserved Pool.live
    rw [hc, hs]
    refine Nat.add_le_add_left (liveOf_keep fun v _ hv => ?_) _
    rw [hstate]
    exact hv

/-! ### Each part of the invariant -/

theorem calm_retire {ctx : RetireCtx} {stage : RetireStage} (hctx : ctx.replenish = true)
    (hstage : ∀ id err, stage ≠ .install id (some err)) :
    (Pc.retire w ctx stage).disturbed = false := by
  cases ctx <;> cases stage with
  | install id failed =>
    cases failed with
    | none => first | rfl | cases hctx
    | some err => exact absurd rfl (hstage id err)
  | _ => first | rfl | cases hctx

theorem advance_calm (hcalm : p.disturbed = false) (hU : ∀ st d, o ≠ .spawnFailed st d)
    (hm : advance cfg s t o p = some m) : m.point.disturbed = false := by
  rcases advance_goes hm with hf | ⟨exit, he, -⟩
  · generalize hq : m.point = q at hf
    cases hf with
    | warmSpawn left id failed =>
      cases advanceWarm_move hm with
      | spawned left id =>
        cases hq
        rfl
      | spawnFailed left id started detail => exact absurd rfl (hU started detail)
    | leaseSpawn k timeout id failed =>
      cases advanceLease_move hm with
      | spawned id se session =>
        cases hq
        rfl
      | spawnFailed id started detail => exact absurd rfl (hU started detail)
    | retireInstall w ctx id failed =>
      cases advanceRetire_move hm with
      | spawned id =>
        cases hq
        exact calm_retire (calm_replenishes hcalm) (by simp)
      | spawnFailed id started detail => exact absurd rfl (hU started detail)
    | retireTake | retireForget | retireCheck | retireSpawn =>
      exact calm_retire (calm_replenishes hcalm) (by simp)
    | _ => rfl
  · rw [he]
    rfl

theorem calm_step (hU : Undisturbed x a) (hcalm : ∀ u p, x.tasks u = some p → p.disturbed = false)
    (h : step cfg x a = some x') : ∀ u p, x'.tasks u = some p → p.disturbed = false := by
  intro u q hq
  cases step_task h hq with
  | kept before other => exact hcalm u q before
  | moved o p m act before move point world =>
    subst act
    rw [point]
    refine advance_calm (hcalm u p before) (fun st d he => ?_) move
    rw [he] at hU
    exact hU
  | dropped p m act before move point world =>
    obtain ⟨exit, he⟩ := dropTask_point move
    rw [point, he]
    rfl
  | started before start =>
    cases start with
    | shutdownAll => cases hU
    | drops t p q pc_eq left =>
      cases left with
      | spawn _ id held =>
        rcases held with ⟨k, timeout, rfl⟩ | ⟨w, ctx, rfl⟩ <;> simp [Undisturbed, pc_eq] at hU
      | install _ id failed held =>
        have hp := hcalm t p pc_eq
        cases failed with
        | none => rfl
        | some err =>
          rcases held with ⟨k, timeout, rfl⟩ | ⟨w, ctx, rfl⟩
          · cases hp
          · cases ctx <;> cases hp
      | _ => rfl
    | _ => rfl

/- A forgetting move takes the slot out of the children. -/
theorem forget_removes (hm : advance cfg s t o p = some m)
    (hp : (∃ ctx took, p = .retire w ctx (.forget took)) ∨ ∃ started, p = .reap w started .forget) :
    w ∉ m.mem.children := by
  have hnot : w ∉ (s.forget [w]).children := by simp [Pool.forget]
  rcases hp with ⟨ctx, took, rfl⟩ | ⟨started, rfl⟩
  · cases advanceRetire_move hm with
    | forgotten free => exact hnot
    | forgottenDead free =>
      rw [(retireReplenish_frame _ _ _).1]
      exact hnot
  · cases advanceReap_move hm with
    | forgotten free => exact hnot

/- A killing move leaves a task that will take the slot out of the children. -/
theorem kill_forgets (hm : advance cfg s t o p = some m) (hlive : s.stateOf w ≠ some .dead)
    (hdead : m.mem.stateOf w = some .dead) : m.point.forgets = some w := by
  rcases (advance_slot hm w).kills hlive hdead with ⟨ctx, rfl⟩ | ⟨started, rfl⟩
  · cases advanceRetire_move hm with
    | wasDead slot found dead => rfl
    | killed slot found live => rfl
  · cases advanceReap_move hm with
    | kept slot found used => exact absurd hdead hlive
    | reaped slot found idle unused => rfl

/- The registry after a resumption has no children but the old ones and live ones. -/
theorem children_step (hg : Good cfg own s t p) (hm : advance cfg s t o p = some m)
    (hw : w ∈ m.mem.children) (hdead : m.mem.stateOf w = some .dead) : w ∈ s.children := by
  cases advance_registry hg hm with
  | same children => exact children ▸ hw
  | forgot ids _ _ children | reserved ids _ _ children =>
    rw [children] at hw
    exact List.mem_of_mem_filter hw
  | installed id live state children =>
    rw [children] at hw
    rcases List.mem_append.mp hw with hw | hw
    · exact hw
    · rw [List.mem_singleton.mp hw, state] at hdead
      exact absurd hdead live
  | released id _ children => exact children ▸ hw

theorem forgotten_step (hI : Inv cfg own x) (hU : Undisturbed x a) (hM : MinInv cfg x)
    (h : step cfg x a = some x') : ∀ w ∈ x'.mem.children, x'.mem.stateOf w = some .dead →
    ∃ u p, x'.tasks u = some p ∧ p.forgets = some w := by
  intro w hw hdead
  -- the task that was to forget `w`, when `w` was dead before
  have hold : w ∈ x.mem.children → x.mem.stateOf w = some .dead →
      ∃ u p, x'.tasks u = some p ∧ p.forgets = some w := by
    intro hw' hd'
    obtain ⟨u, p, hp, hf⟩ := hM.forgotten w hw' hd'
    by_cases hmoves : a.Moves u
    · rcases hmoves with rfl | ⟨o, rfl⟩
      · obtain ⟨m, hm, rfl⟩ := step_drop_at hp h
        cases p with
        | retire v ctx stage =>
          cases ctx with
          | call k sessionId caller err | release sessionId save err =>
            cases hm
            cases stage <;> cases hf
            exact ⟨x.next + 0, _, Tasks.spawn_new rfl, rfl⟩
          | dispatch k sessionId err =>
            cases stage <;> cases hf
            simp [Undisturbed, hp] at hU
          | guard | reservation | shutdown => cases hm
        | reap => cases hm
        | _ => cases hf
      · obtain ⟨m, hm, rfl⟩ := step_advance_at hp h
        have hself := Tasks.resume_self m (hI.lt_next hp)
        unfold Pc.forgets at hf
        split at hf <;> cases hf
        · exact absurd hw (forget_removes hm (.inl ⟨_, _, rfl⟩))
        · cases advanceRetire_move hm with
          | wasDead slot found dead => exact ⟨u, _, hself, rfl⟩
          | killed slot found live => exact ⟨u, _, hself, rfl⟩
        · exact absurd hw (forget_removes hm (.inr ⟨_, rfl⟩))
    · exact ⟨u, p, step_kept hI h hp hmoves, hf⟩
  by_cases ha : ∃ u o, a = .advance u o
  · obtain ⟨u, o, rfl⟩ := ha
    obtain ⟨p, m, hp, hm, rfl⟩ := step_advance_iff.mp h
    have hw' := children_step (hI.good u p hp) hm hw hdead
    by_cases hd' : x.mem.stateOf w = some .dead
    · exact hold hw' hd'
    · exact ⟨u, _, Tasks.resume_self m (hI.lt_next hp), kill_forgets hm hd' hdead⟩
  · obtain ⟨hc, -⟩ := step_registry h fun u o he => ha ⟨u, o, he⟩
    rcases step_slot h w with ⟨hst, -⟩ | ⟨u, o, p, he, -⟩
    · exact hold (hc ▸ hw) (hst.symm.trans hdead)
    · exact absurd ⟨u, o, he⟩ ha

/- A dropped future leaves its reservation to the task it spawns. -/
theorem held_dropped {id : WorkerId} (hp : x.tasks u = some p) (hcalm : p.disturbed = false)
    (hU : Undisturbed x (.drop u)) (hm : dropTask x.mem u p = some m)
    (hr : p.reserves = some id) :
    ∃ v q, (x.resume u m).tasks v = some q ∧ q.reserves = some id := by
  cases p with
  | lease k timeout stage =>
    cases stage with
    | spawn id' => simp [Undisturbed, hp] at hU
    | install id' failed =>
      cases hm
      cases hr
      exact ⟨x.next + 0, _, Tasks.spawn_new rfl, rfl⟩
    | _ => cases hr
  | retire w ctx stage =>
    cases stage with
    | spawn id' => cases ctx <;> simp [Undisturbed, hp] at hU
    | install id' failed =>
      cases hr
      cases ctx with
      | call k sessionId caller err | release sessionId save err =>
        cases hm
        exact ⟨x.next + 1, _, Tasks.spawn_new rfl, rfl⟩
      | dispatch k sessionId err => simp [Undisturbed, hp] at hU
      | guard | reservation | shutdown => cases hm
    | _ => cases hr
  | warm | unreserve => cases hm
  | _ => cases hr

theorem held_step (hI : Inv cfg own x) (hU : Undisturbed x a) (hM : MinInv cfg x)
    (h : step cfg x a = some x') :
    ∀ id ∈ x'.mem.spawning, ∃ u p, x'.tasks u = some p ∧ p.reserves = some id := by
  intro id hid
  by_cases ha : ∃ t o, a = .advance t o
  · obtain ⟨t, o, rfl⟩ := ha
    obtain ⟨pt, m, hpt, hm, rfl⟩ := step_advance_iff.mp h
    have hself := Tasks.resume_self m (hI.lt_next hpt)
    -- the holder of `id` goes on to hold it, unless it is the task that moved
    have hold : id ∈ x.mem.spawning → (pt.reserves = some id → m.point.reserves = some id) →
        ∃ u p, (x.resume t m).tasks u = some p ∧ p.reserves = some id := by
      intro hid' hmover
      obtain ⟨u, p, hp, hr⟩ := hM.held id hid'
      by_cases hut : u = t
      · subst hut
        rw [hp] at hpt
        cases hpt
        exact ⟨u, _, hself, hmover hr⟩
      · refine ⟨u, p, step_kept hI h hp ?_, hr⟩
        rintro (he | ⟨o', he⟩) <;> cases he
        exact hut rfl
    cases advance_registry (hI.good t pt hpt) hm with
    | same children spawning reserves => exact hold (spawning ▸ hid) (reserves id)
    | forgot ids dead state children spawning before =>
      exact hold (spawning ▸ hid) fun hr => by rw [before] at hr; cases hr
    | reserved ids dead state children spawning before reserves =>
      have hid' : id ∈ m.mem.spawning := hid
      rw [spawning] at hid'
      rcases Finset.mem_insert.mp hid' with rfl | hmem
      · exact ⟨t, _, hself, reserves⟩
      · exact hold hmem fun hr => by rw [before] at hr; cases hr
    | installed id' live state children spawning before =>
      have hid' : id ∈ m.mem.spawning := hid
      rw [spawning] at hid'
      refine hold (Finset.mem_of_mem_erase hid') fun hr => ?_
      rw [before] at hr
      exact absurd (Option.some.inj hr).symm (Finset.ne_of_mem_erase hid')
    | released id' state children spawning failed =>
      have hid' : id ∈ m.mem.spawning := hid
      rw [spawning] at hid'
      refine hold (Finset.mem_of_mem_erase hid') fun hr => ?_
      have hid'' : pt.reserves = some id' := by
        rcases failed with ⟨_, _, rfl⟩ | ⟨_, _, _, rfl⟩ | ⟨_, _, _, rfl⟩ | rfl | ⟨rfl, -⟩ <;> rfl
      rw [hid''] at hr
      exact absurd (Option.some.inj hr).symm (Finset.ne_of_mem_erase hid')
  · obtain ⟨-, hs⟩ := step_registry h fun t o he => ha ⟨t, o, he⟩
    rw [hs] at hid
    obtain ⟨u, p, hp, hr⟩ := hM.held id hid
    by_cases hmoves : a.Moves u
    · rcases hmoves with rfl | ⟨o, rfl⟩
      · obtain ⟨m, hm, rfl⟩ := step_drop_at hp h
        exact held_dropped hp (hM.calm u p hp) hU hm hr
      · exact absurd ⟨u, o, rfl⟩ ha
    · exact ⟨u, p, step_kept hI h hp hmoves, hr⟩

/-! ### The count of the idle reap -/

/- While a reap holds the lock of `PoolInner`, a slot dies only by a retirement, which
then owes a check. -/
theorem live_while_locked (hmin : cfg.min ≠ 0) (hI : Inv cfg own x) (hM : MinInv cfg x)
    (h : step cfg x a = some x') (hinner : x.mem.inner = some u) (hu : ¬ a.Moves u) :
    (∀ w, x.mem.stateOf w ≠ some .dead → x'.mem.stateOf w ≠ some .dead) ∨ Owing x' := by
  by_cases hkill : ∃ w, x.mem.stateOf w ≠ some .dead ∧ x'.mem.stateOf w = some .dead
  · obtain ⟨w, hlive, hdead⟩ := hkill
    right
    rcases step_slot h w with ⟨hst, -⟩ | ⟨t, o, p, rfl, hp, hc⟩
    · exact absurd (hst.symm.trans hdead) hlive
    · rcases hc.kills hlive hdead with ⟨ctx, rfl⟩ | ⟨started, rfl⟩
      · obtain ⟨m, hm, rfl⟩ := step_advance_at hp h
        have hself := Tasks.resume_self m (hI.lt_next hp)
        rcases retire_ends hmin (hM.calm t _ hp) hm with ⟨stage', hstage', hpoint⟩ | ⟨he, -⟩
        · rw [hpoint] at hself
          exact ⟨t, _, hself, owes_retire (calm_replenishes (hM.calm t _ hp)) hstage'⟩
        · cases he
      · have hmine : x.mem.inner = some t := (hI.good t _ hp).2.2
        rw [hinner] at hmine
        cases hmine
        exact absurd (.inr ⟨o, rfl⟩) hu
  · exact .inl fun w hlive hdead => hkill ⟨w, hlive, hdead⟩

theorem owing_other (hmin : cfg.min ≠ 0) (hI : Inv cfg own x) (hU : Undisturbed x a)
    (hM : MinInv cfg x) (h : step cfg x a = some x') (hno : ¬ CheckEnds cfg x a) (hO : Owing x) :
    Owing x' :=
  (owing_step hmin hI hM.calm hU h hO).resolve_right hno

/- What a reap has counted, for a reap that a step does not move. -/
theorem counted_kept (live : ℕ) (seen : List WorkerId) (hmin : cfg.min ≠ 0) (hI : Inv cfg own x)
    (hU : Undisturbed x a) (hM : MinInv cfg x) (h : step cfg x a = some x')
    (hinner : x.mem.inner = some u) (hu : ¬ a.Moves u)
    (hcount : live ≤ x.mem.spawning.card + (x.mem.liveOf seen).length ∨ Owing x) :
    live ≤ x'.mem.spawning.card + (x'.mem.liveOf seen).length ∨ Owing x' := by
  have hno : ¬ CheckEnds cfg x a := by
    rintro ⟨_, _, _, _, -, -, hi, -⟩
    rw [hinner] at hi
    cases hi
  obtain ⟨own', -, -, hrely⟩ := step_inv hI h
  obtain ⟨-, -, hspawning⟩ := (hrely u hu).inner hinner
  rcases hcount with hle | hO
  · rcases live_while_locked hmin hI hM h hinner hu with hkeep | hO
    · have hlen := liveOf_keep (l := seen) fun v _ => hkeep v
      rw [hspawning]
      exact .inl (by omega)
    · exact .inr hO
  · exact .inr (owing_other hmin hI hU hM h hno hO)

/- The next child of a count, or its end. -/
theorem reap_count_inv {started : ℕ} {stage : ReapStage} {w : WorkerId} (hM : MinInv cfg x)
    (hp : x.tasks u = some (.reap w started stage))
    (hm : advanceReap cfg x.mem u w started stage o = some m)
    (hq : (∃ w' started' rest live, m.point = .reap w' started' (.count rest live)) ∨
      ∃ w' started', m.point = .reap w' started' .take) :
    ∃ rest live, m.mem.children = x.mem.children ∧ m.mem.spawning = x.mem.spawning ∧
      (∀ v, m.mem.stateOf v = x.mem.stateOf v) ∧
      m.point = (countNext cfg x.mem w started rest live).point ∧
      ∃ seen, x.mem.children = seen ++ rest ∧
        (live ≤ x.mem.spawning.card + (x.mem.liveOf seen).length ∨ Owing x) := by
  have hmem : ∀ s' rest live, (s' = x.mem ∨ s' = x.mem.lockInner u) →
      m = countNext cfg s' w started rest live →
      m.mem.children = x.mem.children ∧ m.mem.spawning = x.mem.spawning ∧
      (∀ v, m.mem.stateOf v = x.mem.stateOf v) ∧
      m.point = (countNext cfg x.mem w started rest live).point := by
    intro s' rest live hs' he
    subst he
    unfold countNext
    split
    · rcases hs' with rfl | rfl <;> exact ⟨rfl, rfl, fun _ => rfl, rfl⟩
    · split <;> rcases hs' with rfl | rfl <;> exact ⟨rfl, rfl, fun _ => rfl, rfl⟩
  cases advanceReap_move hm with
  | counts free =>
    obtain ⟨hc, hs, hst, hpt⟩ := hmem _ _ _ (.inr rfl) rfl
    exact ⟨_, _, hc, hs, hst, hpt, [], rfl, .inl le_rfl⟩
  | counted c rest live slot found =>
    obtain ⟨hc, hs, hst, hpt⟩ := hmem _ _ _ (.inl rfl) rfl
    obtain ⟨seen, hseen, hcount⟩ := hM.counted u w started _ live hp
    refine ⟨_, _, hc, hs, hst, hpt, seen ++ [c], by rw [hseen]; simp, ?_⟩
    rcases hcount with hle | hO
    · left
      have happ : x.mem.liveOf (seen ++ [c]) = x.mem.liveOf seen ++ x.mem.liveOf [c] :=
        List.filter_append ..
      rw [happ, List.length_append]
      by_cases hd : slot.state = .dead
      · rw [if_pos hd]
        omega
      · have hone : x.mem.liveOf [c] = [c] := by
          simp [Pool.liveOf, stateOf_eq found, hd]
        rw [if_neg hd, hone, List.length_singleton]
        omega
    · exact .inr hO
  | never | sleeps | wakes | kept | reaped | forgotten | finished =>
    rcases hq with ⟨_, _, _, _, he⟩ | ⟨_, _, he⟩ <;> cases he

/- A task that moved out of a reap has ended no check. -/
theorem reap_not_check {started : ℕ} {stage : ReapStage}
    (hp : x.tasks u = some (.reap w started stage)) : ¬ CheckEnds cfg x (.advance u o) := by
  rintro ⟨v, o', w', ctx, he, hv, -⟩
  cases he
  rw [hp] at hv
  cases hv

/- Where a task of a reap comes from. -/
theorem reap_from {started : ℕ} {stage : ReapStage} (h : step cfg x a = some x')
    (hq : x'.tasks u = some (.reap w started stage)) (hstage : stage ≠ .spawned) :
    (x.tasks u = some (.reap w started stage) ∧ ¬ a.Moves u) ∨
    ∃ o started₀ stage₀ m, a = .advance u o ∧ x.tasks u = some (.reap w started₀ stage₀) ∧
      advanceReap cfg x.mem u w started₀ stage₀ o = some m ∧ m.point = .reap w started stage ∧
      x' = x.resume u m := by
  cases step_task h hq with
  | kept before other => exact .inl ⟨before, other⟩
  | moved o p m act before move point world =>
    rcases advance_goes move with hf | ⟨exit, he, -⟩
    · rw [← point] at hf
      cases hf with
      | reap _ started₀ _ stage₀ _ next =>
        exact .inr ⟨o, started₀, stage₀, m, act, before, move, point.symm, world⟩
    · rw [← point] at he
      cases he
  | dropped p m act before move point world =>
    obtain ⟨exit, he⟩ := dropTask_point move
    rw [← point] at he
    cases he
  | started before start =>
    cases start with
    | reap => exact absurd rfl hstage
    | drops t pc p pc_eq left => cases left

theorem counted_step (hmin : cfg.min ≠ 0) (hI : Inv cfg own x) (hU : Undisturbed x a)
    (hM : MinInv cfg x) (h : step cfg x a = some x') :
    ∀ u w started rest live, x'.tasks u = some (.reap w started (.count rest live)) →
    ∃ seen, x'.mem.children = seen ++ rest ∧
      (live ≤ x'.mem.spawning.card + (x'.mem.liveOf seen).length ∨ Owing x') := by
  intro u w started rest live hq
  rcases reap_from h hq (by simp) with ⟨hp, hu⟩ | ⟨o, started₀, stage₀, m, rfl, hp, hm, hpoint, rfl⟩
  · obtain ⟨seen, hseen, hcount⟩ := hM.counted u w started rest live hp
    have hinner : x.mem.inner = some u := (hI.good u _ hp).2.2.1
    obtain ⟨own', -, -, hrely⟩ := step_inv hI h
    obtain ⟨-, hchildren, -⟩ := (hrely u hu).inner hinner
    exact ⟨seen, hchildren.trans hseen, counted_kept _ _ hmin hI hU hM h hinner hu hcount⟩
  · obtain ⟨rest', live', hc, hs, hst, hpt, seen, hseen, hcount⟩ :=
      reap_count_inv hM hp hm (.inl ⟨_, _, _, _, hpoint⟩)
    have heq : rest' = rest ∧ live' = live := by
      rw [hpoint] at hpt
      unfold countNext at hpt
      split at hpt
      · cases hpt
        exact ⟨rfl, rfl⟩
      · split at hpt <;> cases hpt
    obtain ⟨rfl, rfl⟩ := heq
    refine ⟨seen, hc.trans hseen, ?_⟩
    rcases hcount with hle | hO
    · have hl : (x.mem.liveOf seen).length ≤ (m.mem.liveOf seen).length :=
        liveOf_keep fun v _ hv => by
          rw [hst]
          exact hv
      left
      show _ ≤ m.mem.spawning.card + (m.mem.liveOf seen).length
      rw [hs]
      omega
    · exact .inr (owing_other hmin hI hU hM h (reap_not_check hp) hO)

theorem above_step (hmin : cfg.min ≠ 0) (hI : Inv cfg own x) (hU : Undisturbed x a)
    (hM : MinInv cfg x) (h : step cfg x a = some x') :
    ∀ u w started, x'.tasks u = some (.reap w started .take) →
    cfg.minWorkers < x'.mem.liveOrReserved ∨ Owing x' := by
  intro u w started hq
  rcases reap_from h hq (by simp) with ⟨hp, hu⟩ | ⟨o, started₀, stage₀, m, rfl, hp, hm, hpoint, rfl⟩
  · have hinner : x.mem.inner = some u := (hI.good u _ hp).2.2
    obtain ⟨own', -, -, hrely⟩ := step_inv hI h
    obtain ⟨-, hchildren, -⟩ := (hrely u hu).inner hinner
    have hkept := counted_kept (cfg.minWorkers + 1) x.mem.children
      hmin hI hU hM h hinner hu (hM.above u w started hp)
    rcases hkept with hle | hO
    · left
      unfold Pool.liveOrReserved Pool.live
      rw [hchildren]
      exact hle
    · exact .inr hO
  · obtain ⟨rest', live', hc, hs, hst, hpt, seen, hseen, hcount⟩ :=
      reap_count_inv hM hp hm (.inr ⟨_, _, hpoint⟩)
    have heq : rest' = [] ∧ cfg.minWorkers < live' := by
      rw [hpoint] at hpt
      unfold countNext at hpt
      split at hpt
      · cases hpt
      · split at hpt
        · cases hpt
        · exact ⟨rfl, by omega⟩
    obtain ⟨rfl, hlt⟩ := heq
    rw [List.append_nil] at hseen
    subst hseen
    rcases hcount with hle | hO
    · have hl : (x.mem.liveOf x.mem.children).length ≤ (m.mem.liveOf x.mem.children).length :=
        liveOf_keep fun v _ hv => by
          rw [hst]
          exact hv
      left
      show cfg.minWorkers < m.mem.spawning.card + (m.mem.liveOf m.mem.children).length
      rw [hs, hc]
      omega
    · exact .inr (owing_other hmin hI hU hM h (reap_not_check hp) hO)

/-! ### `warm_min` and the minimum itself -/

/- Only `warm_min` runs before the pool serves. -/
theorem warm_only (hI : Inv cfg own x) (hserve : x.mem.serving = false) (hp : x.tasks u = some p)
    (hm : advance cfg x.mem u o p = some m) : u = 0 ∧ ∃ left stage, p = .warm left stage := by
  have hg := hI.good u p hp
  have hno : ∀ {P : Prop}, x.mem.serving = true ∧ P → False := by
    rintro P ⟨h, -⟩
    rw [hserve] at h
    cases h
  cases p with
  | warm left stage => exact ⟨hg.1, left, stage, rfl⟩
  | done => cases hm
  | dispatchHandle | takeHandle => exact (hno ⟨hg, trivial⟩).elim
  | unreserve id built => cases built <;> exact (hno hg).elim
  | _ => exact (hno hg).elim

theorem owes_serving (hg : Good cfg own s u p) (hp : p.owes = true) : s.serving = true := by
  cases p with
  | retire w ctx stage => exact hg.1
  | unreserve id built => cases built <;> exact hg.1
  | _ => cases hp

theorem warm_step (hmin : cfg.min ≠ 0) (hI : Inv cfg own x) (hM : MinInv cfg x)
    (h : step cfg x a = some x') :
    ∀ left stage, x'.tasks 0 = some (.warm left stage) →
      cfg.min ≤ x'.mem.liveOrReserved + left := by
  intro left stage hq
  cases step_task h hq with
  | kept before other =>
    have hold := hM.warm left stage before
    have hserve : x.mem.serving = false := (hI.good 0 _ before).2.1
    rcases liveOrReserved_step hmin hI hM.calm h with
      hle | ⟨v, p, hv, howes⟩ | ⟨v, o, w, st, rfl, hv, -⟩
    · omega
    · obtain ⟨own', hI', -⟩ := step_inv hI h
      have hserve' : x'.mem.serving = false := (hI'.good 0 _ hq).2.1
      rw [owes_serving (hI'.good v p hv) howes] at hserve'
      cases hserve'
    · have hg := (hI.good v _ hv).1
      rw [hserve] at hg
      cases hg
  | moved o p m act before move point world =>
    subst world
    have hlive := liveOrReserved_advance hI.global (hI.good 0 p before) (hM.calm 0 p before) move
    rcases advance_goes move with hf | ⟨exit, he, -⟩
    · rw [← point] at hf
      cases hf with
      | warmReserve left id =>
        have hold := hM.warm _ _ before
        have hmem : m.mem = x.mem.reserve := by
          cases advance_moves move with
          | single outcome moved => cases moved
          | warm left stage moved =>
            cases moved with
            | reserves left free => rfl
        show cfg.min ≤ m.mem.liveOrReserved + left
        rw [hmem]
        have hcard : x.mem.reserve.spawning.card = x.mem.spawning.card + 1 :=
          Finset.card_insert_of_notMem (nextId_unused hI.global).1
        have hl : x.mem.reserve.live = x.mem.live := rfl
        unfold Pool.liveOrReserved at hold ⊢
        rw [hcard, hl]
        omega
      | warmSpawn left id failed | warmInstall left id =>
        have hold := hM.warm _ _ before
        rcases hlive with hle | ⟨-, ⟨_, _, he⟩ | ⟨_, _, he⟩ | ⟨_, he⟩⟩
        · exact hold.trans (Nat.add_le_add_right hle _)
        all_goals cases he
    · rw [← point] at he
      cases he
  | dropped p m act before move point world =>
    obtain ⟨exit, he⟩ := dropTask_point move
    rw [← point] at he
    cases he
  | started before start =>
    cases start with
    | drops t pc p pc_eq left => cases left

/- The pool begins to serve when `warm_min` returns. -/
theorem serving_step (hI : Inv cfg own x) (h : step cfg x a = some x')
    (hbefore : x.mem.serving = false) (hafter : x'.mem.serving = true) :
    (∃ stage, x.tasks 0 = some (.warm 0 stage)) ∧ x'.mem.liveOrReserved = x.mem.liveOrReserved := by
  cases a with
  | newSession sessionId =>
    simp only [step, hbefore] at h
    cases h
  | openObserved k secs | callTool k tool secs | closeWithSave k save =>
    rw [start_mem h] at hafter
    rw [show (Tasks.World.spawn x _).mem.serving = x.mem.serving from rfl, hbefore] at hafter
    cases hafter
  | dropSession k =>
    simp only [step] at h
    split at h
    · cases h
    · split at h <;> cases h
      rw [show x.mem.serving = true from hafter] at hbefore
      cases hbefore
  | shutdownAll =>
    simp only [step] at h
    split at h <;> cases h
    rw [show x.mem.serving = true from hafter] at hbefore
    cases hbefore
  | tick =>
    cases h
    rw [show x.mem.serving = true from hafter] at hbefore
    cases hbefore
  | advance u o =>
    obtain ⟨p, m, hp, hm, rfl⟩ := step_advance_iff.mp h
    obtain ⟨rfl, left, stage, rfl⟩ := warm_only hI hbefore hp hm
    have hafter : m.mem.serving = true := hafter
    cases advanceWarm_move hm with
    | serves => exact ⟨⟨_, hp⟩, rfl⟩
    | _ =>
      rw [show x.mem.serving = true from hafter] at hbefore
      cases hbefore
  | drop u =>
    obtain ⟨p, m, hp, hm, rfl⟩ := step_drop_iff.mp h
    have hsame : m.mem.serving = x.mem.serving := by
      unfold dropTask at hm
      split at hm <;> cases hm <;> rfl
    have hserving : (Tasks.World.resume x u m).mem.serving = m.mem.serving := rfl
    rw [hserving, hsame, hbefore] at hafter
    cases hafter

/- A check that found enough workers: they are live, or another retirement will check. -/
theorem check_ends (hmin : cfg.min ≠ 0) (hI : Inv cfg own x) (hC : CountsLive x a)
    (hM : MinInv cfg x) (h : step cfg x a = some x') (hE : CheckEnds cfg x a) :
    cfg.min ≤ x'.mem.liveOrReserved ∨ Owing x' := by
  obtain ⟨u, o, w, ctx, rfl, hu, -, hcount⟩ := hE
  by_cases hdead : ∃ v ∈ x.mem.children, x.mem.stateOf v = some .dead
  · -- some other task will take the dead child out
    obtain ⟨v, hv, hd⟩ := hdead
    obtain ⟨y, p, hy, hf⟩ := hM.forgotten v hv hd
    have hcalm := hM.calm y p hy
    have hmoves : ¬ (Act.advance u o).Moves y := by
      rintro (he | ⟨o', he⟩) <;> cases he
      rw [hu] at hy
      cases hy
      cases hf
    have hkept := step_kept hI h hy hmoves
    right
    unfold Pc.forgets at hf
    split at hf <;> cases hf
    · exact ⟨y, _, hkept, owes_retire (calm_replenishes hcalm) (by simp)⟩
    · exact ⟨y, _, hkept, rfl⟩
    · simp only [CountsLive, hu] at hC
      exact absurd (by simp [hy, Pc.reaping]) (hC v hv y (hI.lt_next hy))
  · have hall : x.mem.live = x.mem.children := by
      refine List.filter_eq_self.mpr fun v hv => ?_
      exact decide_eq_true fun hd => hdead ⟨v, hv, hd⟩
    have henough : cfg.min ≤ x.mem.liveOrReserved := by
      unfold Pool.liveOrReserved
      rw [hall]
      exact hcount
    rcases liveOrReserved_step hmin hI hM.calm h with hle | hO | ⟨y, o', w', st, he, hy, -⟩
    · exact .inl (henough.trans hle)
    · exact .inr hO
    · cases he
      rw [hu] at hy
      cases hy

theorem minimum_step (hmin : cfg.min ≠ 0) (hI : Inv cfg own x) (hU : Undisturbed x a)
    (hC : CountsLive x a) (hM : MinInv cfg x) (h : step cfg x a = some x')
    (hserve : x'.mem.serving = true) : cfg.min ≤ x'.mem.liveOrReserved ∨ Owing x' := by
  have hle : cfg.min ≤ cfg.minWorkers := Nat.min_le_left _ _
  cases hbefore : x.mem.serving with
  | false =>
    obtain ⟨⟨stage, hwarm⟩, hsame⟩ := serving_step hI h hbefore hserve
    have hold := hM.warm 0 stage hwarm
    exact .inl (by omega)
  | true =>
    by_cases hE : CheckEnds cfg x a
    · exact check_ends hmin hI hC hM h hE
    · have howing : Owing x → Owing x' := owing_other hmin hI hU hM h hE
      rcases hM.minimum hbefore with henough | hO
      · rcases liveOrReserved_step hmin hI hM.calm h with hge | hO | ⟨y, o, w, st, -, hy, hge⟩
        · exact .inl (henough.trans hge)
        · exact .inr hO
        · -- the reap counted more than the minimum
          rcases hM.above y w st hy with habove | hO
          · exact .inl (by omega)
          · exact .inr (howing hO)
      · exact .inr (howing hO)

theorem MinInv.step (hmin : cfg.min ≠ 0) (hI : Inv cfg own x) (hU : Undisturbed x a)
    (hC : CountsLive x a) (hM : MinInv cfg x) (h : step cfg x a = some x') : MinInv cfg x' where
  calm := calm_step hU hM.calm h
  forgotten := forgotten_step hI hU hM h
  held := held_step hI hU hM h
  counted := counted_step hmin hI hU hM h
  above := above_step hmin hI hU hM h
  warm := warm_step hmin hI hM h
  minimum := minimum_step hmin hI hU hC hM h

theorem init_minInv (cfg : Config) : MinInv cfg (init cfg) := by
  have htask : ∀ u p, (init cfg).tasks u = some p → p = .warm cfg.min .reserve := by
    intro u p hp
    simp only [init] at hp
    split at hp <;> cases hp
    rfl
  refine ⟨?_, by simp [init], by simp [init], ?_, ?_, ?_, by simp [init]⟩
  · intro u p hp
    rw [htask u p hp]
    rfl
  · intro u w started rest live hp
    cases htask u _ hp
  · intro u w started hp
    cases htask u _ hp
  · intro left stage hp
    cases htask 0 _ hp
    exact Nat.le_add_left _ _

/- The tasks of the pool: leases, releases, retirements and idle reaps. -/
def Pc.poolTask : Pc → Bool
  | .warm .. | .lease .. | .release .. | .retire .. | .reap .. | .unreserve .. => true
  | _ => false

theorem quiet_reserves (hp : p.poolTask = false) : p.reserves = none := by
  cases p <;> first | rfl | cases hp

theorem quiet_owes (hp : p.poolTask = false) : p.owes = false := by
  cases p <;> first | rfl | cases hp

/-- Along an undisturbed run whose checks count live children only, a quiet pool that
serves has its minimum of live children. -/
theorem minimum_if_counts_live {as : List Act}
    (hrun : Runs.run (step cfg) (init cfg) as = some x)
    (hcalm : Runs.Along (step cfg) Undisturbed (init cfg) as)
    (hcounts : Runs.Along (step cfg) CountsLive (init cfg) as)
    (hserve : x.mem.serving = true)
    (hquiet : ∀ u p, x.tasks u = some p → p.poolTask = false) :
    cfg.min ≤ x.mem.live.length := by
  by_cases hmin : cfg.min = 0
  · omega
  obtain ⟨-, hM⟩ := run_pool_along
    (fun own v b v' hv hM hb hs => MinInv.step hmin hv hb.1 hb.2 hM hs) ⟨_, init_inv cfg⟩
    (init_minInv cfg) (hcalm.and hcounts) hrun
  have hnone : x.mem.spawning = ∅ := by
    refine Finset.eq_empty_of_forall_notMem fun id hid => ?_
    obtain ⟨u, p, hp, hr⟩ := hM.held id hid
    rw [quiet_reserves (hquiet u p hp)] at hr
    cases hr
  rcases hM.minimum hserve with henough | ⟨u, p, hp, howes⟩
  · unfold Pool.liveOrReserved at henough
    rw [hnone, Finset.card_empty] at henough
    omega
  · rw [quiet_owes (hquiet u p hp)] at howes
    cases howes

/- The only worker is killed after a timeout, and replaced. -/
def replaced : List Act :=
  [go 0, .advance 0 .spawned, go 0, go 0, .newSession "A", .openObserved 0 none, go 1, go 1, go 1,
    go 1, go 1, .advance 1 (.answer (.result none (some "p"))), go 1,
    .callTool 0 "decompile" none, go 2, go 2, go 2, .advance 2 (.answer .timeout), go 2, go 2, go 2,
    go 2, .advance 2 .spawned, go 2, go 2, go 2]

theorem minimum_replaced :
    ∃ x, Runs.run (step ⟨2, 1, 1, 600⟩) (init ⟨2, 1, 1, 600⟩) replaced = some x ∧
      (Config.mk 2 1 1 600).min ≤ x.mem.live.length := by
  have hrun : (Runs.run (step ⟨2, 1, 1, 600⟩) (init ⟨2, 1, 1, 600⟩) replaced).any (fun x =>
      decide (x.mem.serving = true ∧
        ∀ u < x.next, (x.tasks u).map Pc.poolTask = some false)) = true := by
    decide +kernel
  obtain ⟨x, hx, hp⟩ := (Option.any_eq_true _ _).mp hrun
  obtain ⟨hserve, hquiet⟩ := of_decide_eq_true hp
  obtain ⟨own, hI⟩ := reachable_inv ⟨_, hx⟩
  refine ⟨x, hx, minimum_if_counts_live hx (by decide +kernel) (by decide +kernel) hserve ?_⟩
  intro u p hu
  have hpool := hquiet u (hI.lt_next hu)
  rw [hu] at hpool
  exact Option.some.inj hpool

/- The idle reap has killed worker 1 and not yet taken it out of the children when
the retirement of worker 0 counts: nobody replaces worker 0. -/
def countedDead : List Act :=
  [go 0, .advance 0 .spawned, go 0, go 0, .newSession "A", .newSession "B",
    .openObserved 0 none, go 1, go 1, go 1, go 1, go 1,
    .advance 1 (.answer (.result none (some "p"))), go 1,
    .openObserved 1 none, go 2, go 2, go 2, .advance 2 .spawned, go 2, go 2, go 2,
    .advance 2 (.answer (.result none (some "q"))), go 2,
    .closeWithSave 1 true, go 3, go 3, go 3, .advance 3 (.answer (.result none none)), go 3, go 3,
    go 4, .tick, go 4, go 4, go 4, go 4, go 4,
    .callTool 0 "decompile" none, go 5, go 5, go 5, .advance 5 (.answer .timeout), go 5, go 5, go 5,
    go 5, go 5, go 4, go 4]

theorem counted_dead_below_minimum :
    Runs.Along (step ⟨2, 1, 1, 600⟩) Undisturbed (init ⟨2, 1, 1, 600⟩) countedDead ∧
    ∃ x, Runs.run (step ⟨2, 1, 1, 600⟩) (init ⟨2, 1, 1, 600⟩) countedDead = some x ∧
      x.mem.serving = true ∧ (∀ u < x.next, ∃ exit, x.tasks u = some (.done exit)) ∧
      x.mem.live.length < (Config.mk 2 1 1 600).min := by
  refine ⟨by decide +kernel, ?_⟩
  have hrun : (Runs.run (step ⟨2, 1, 1, 600⟩) (init ⟨2, 1, 1, 600⟩) countedDead).any (fun x =>
      decide (x.mem.serving = true ∧ (∀ u < x.next, (x.tasks u).any Pc.ended = true) ∧
        x.mem.live.length < (Config.mk 2 1 1 600).min)) = true := by
    decide +kernel
  obtain ⟨x, hx, hp⟩ := (Option.any_eq_true _ _).mp hrun
  obtain ⟨hserve, hended, hlive⟩ := of_decide_eq_true hp
  refine ⟨x, hx, hserve, fun u hu => ?_, hlive⟩
  obtain ⟨p, hp, he⟩ := (Option.any_eq_true _ _).mp (hended u hu)
  obtain ⟨exit, rfl⟩ := ended_iff.mp he
  exact ⟨exit, hp⟩

end IdaHeadless.WorkerPool
