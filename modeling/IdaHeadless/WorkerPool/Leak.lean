import IdaHeadless.WorkerPool.Registry
import IdaHeadless.WorkerPool.Sessions

/-!
# No leaked lease

A lease is kept twice, in the state of the slot and in the handle of the session.
The two are set together, and whoever takes the handle out of the session goes on
to release or retire the slot, or leaves a guard that does. `dispatch` has two
gaps: when its own call failed it clears a handle and does not retire the slot,
and its future can be dropped between the clear and `mark_dead`. Where no step
falls into one of them, every leased child is in the handle of a live session
once the pool is quiet.
-/

namespace IdaHeadless.WorkerPool

def ChildState.isLeased : ChildState → Bool
  | .leased _ => true
  | _ => false

def Pool.leasedAt (s : Pool) (w : WorkerId) : Bool := (s.stateOf w).any ChildState.isLeased

/- The slot that a task takes out of its lease at its next steps. -/
def Pc.settles : Pc → Option WorkerId
  | .release h _ .lock | .release h _ .child => some h.workerId
  | .retire w _ .take => some w
  | _ => none

/- A task other than `t` is going to settle slot `w`. -/
def SettledBy (x : World) (t : TaskId) (w : WorkerId) : Prop :=
  ∃ u < x.next, u ≠ t ∧ (x.tasks u).bind Pc.settles = some w

/- Where a dispatch stops to care for a leased slot, a session or a task still does. -/
def KeepsLease (x : World) : Act → Prop
  | .drop t =>
    match x.tasks t with
    | some (.retire w (.dispatch ..) .take) => x.mem.leasedAt w = true →
      (∃ k < x.mem.nextSession, x.mem.workerOf k = some w) ∨ SettledBy x t w
    | _ => True
  | .advance t _ =>
    match x.tasks t with
    | some (.dispatchClear k h false _) => x.mem.workerOf k = some h.workerId →
      x.mem.leasedAt h.workerId = true → SettledBy x t h.workerId
    | _ => True
  | _ => True

instance (x : World) (t : TaskId) (w : WorkerId) : Decidable (SettledBy x t w) := by
  unfold SettledBy
  infer_instance

instance (x : World) (a : Act) : Decidable (KeepsLease x a) := by
  unfold KeepsLease
  rcases a with ⟨⟩ <;> try infer_instance
  · rename_i t _
    dsimp only
    generalize x.tasks t = p
    rcases p with _ | ⟨⟨⟩⟩ <;> try infer_instance
    rename_i retire _
    rcases retire with ⟨⟩ <;> infer_instance
  · rename_i t
    dsimp only
    generalize x.tasks t = p
    rcases p with _ | ⟨⟨⟩⟩ <;> try infer_instance
    rename_i ctx stage
    rcases ctx with ⟨⟩ <;> rcases stage with ⟨⟩ <;> infer_instance

variable {cfg : Config} {own : Own} {s : Pool} {x x' : World} {a : Act} {t u : TaskId} {p q : Pc}
  {k : SessionRef} {w : WorkerId} {sessionId : String}

theorem leasedAt_iff :
    s.leasedAt w = true ↔ ∃ sessionId, s.stateOf w = some (.leased sessionId) := by
  unfold Pool.leasedAt
  cases hst : s.stateOf w with
  | none => simp
  | some st => cases st <;> simp [ChildState.isLeased]

theorem settles_iff : p.settles = some w ↔
    (∃ h save, p = .release h save .lock ∧ h.workerId = w) ∨
    (∃ h save, p = .release h save .child ∧ h.workerId = w) ∨ ∃ ctx, p = .retire w ctx .take := by
  constructor
  · intro hp
    unfold Pc.settles at hp
    split at hp <;> cases hp
    · exact .inl ⟨_, _, rfl, rfl⟩
    · exact .inr (.inl ⟨_, _, rfl, rfl⟩)
    · exact .inr (.inr ⟨_, rfl⟩)
  · rintro (⟨h, save, rfl, rfl⟩ | ⟨h, save, rfl, rfl⟩ | ⟨ctx, rfl⟩) <;> rfl

theorem takeHandle_takes {save detached : Bool} {o : Outcome} {m : Move}
    (hm : advance cfg s t o (.takeHandle k save detached) = some m) : m.mem.handleOf k = none := by
  cases advance_moves hm with
  | single outcome move =>
    cases move with
    | nothingTaken k save detached se session free handle =>
      exact (handleOf_eq session).trans handle
    | taken k save detached se h session free handle =>
      exact handleOf_setSession.trans (if_pos rfl)

/-! ### A borrowed session is not dropped -/

/- What a future borrows is alive. -/
def Borrowed (x : World) : Prop :=
  ∀ t p k, x.tasks t = some p → p.borrows = some k → x.mem.droppedOf k = some false

theorem Flow.borrows (hf : Flow p q) (hq : q.borrows = some k) : p.borrows = some k := by
  cases hf with
  | retireTake w ctx | retireForget w ctx | retireCheck w ctx | retireSpawn w ctx
  | retireInstall w ctx => cases ctx <;> exact hq
  | _ => first | exact hq | cases hq

theorem borrowed_step (hB : Borrowed x) (hI : Inv cfg own x) (h : step cfg x a = some x') :
    Borrowed x' := by
  -- a future that borrowed before the step kept its session from being dropped
  have hold :
      ∀ t p k, x.tasks t = some p → p.borrows = some k → x'.mem.droppedOf k = some false := by
    intro t p k hp hk
    rcases step_dropped h (hB t p k hp hk) with hd | ⟨hfree, -⟩
    · exact hd
    · exact absurd (by rw [hp]; exact hk) (hfree t (hI.lt_next hp))
  intro t q k hq hk
  cases step_task h hq with
  | kept before other => exact hold t q k before hk
  | moved o p m act before move point world =>
    rcases advance_goes move with hf | ⟨exit, he, -⟩
    · rw [← point] at hf
      exact hold t p k before (hf.borrows hk)
    · rw [point, he] at hk
      cases hk
  | dropped p m act before move point world =>
    obtain ⟨exit, he⟩ := dropTask_point move
    rw [point, he] at hk
    cases hk
  | started before start =>
    cases start with
    | openObserved | callTool | closeWithSave =>
      cases hk
      have halive := start_alive h
      rw [start_mem h]
      exact halive
    | dropSession | shutdownAll | reap => cases hk
    | drops t p q pc_eq left => cases left <;> cases hk

/- A session with a handle is alive, or the task of its `Drop` is still to come. -/
def Attended (x : World) : Prop :=
  ∀ k h, x.mem.handleOf k = some h →
    x.mem.droppedOf k = some false ∨ ∃ t save, x.tasks t = some (.takeHandle k save true)

/- The task of `Drop` takes the handle at its only step. -/
theorem attended_kept (hI : Inv cfg own x) (h : step cfg x a = some x') {hd : Handle}
    (hk : x'.mem.handleOf k = some hd)
    (hatt : x.mem.droppedOf k = some false ∨ ∃ t save, x.tasks t = some (.takeHandle k save true)) :
    x'.mem.droppedOf k = some false ∨ ∃ t save, x'.tasks t = some (.takeHandle k save true) := by
  rcases hatt with halive | ⟨t, save, ht⟩
  · rcases step_dropped h halive with hd | ⟨-, hnew⟩
    · exact .inl hd
    · exact .inr ⟨_, _, hnew⟩
  · by_cases hmoves : a.Moves t
    · exfalso
      rcases hmoves with rfl | ⟨o, rfl⟩
      · obtain ⟨m, hm, rfl⟩ := step_drop_at ht h
        cases hm
      · obtain ⟨m, hm, rfl⟩ := step_advance_at ht h
        have hnone := takeHandle_takes hm
        rw [Tasks.resume_mem, hnone] at hk
        cases hk
    · exact .inr ⟨t, save, step_kept hI h ht hmoves⟩

theorem attended_step (hA : Attended x) (hB : Borrowed x) (hI : Inv cfg own x)
    (h : step cfg x a = some x') : Attended x' := by
  intro k hd hk
  by_cases hadv : ∀ t o, a ≠ .advance t o
  · rw [step_handle hI h hadv] at hk
    exact attended_kept hI h ((step_handle hI h hadv k).trans hk) (hA k hd hk)
  · push Not at hadv
    obtain ⟨t, o, rfl⟩ := hadv
    obtain ⟨p, m, hp, hm, hx'⟩ := step_advance_iff.mp h
    subst hx'
    refine attended_kept hI h hk ?_
    cases advance_session hm k with
    | same handle dropped => exact hA k hd (handle.symm.trans hk)
    | stored timeout w sessionId pc_eq handle dropped =>
      refine .inl (hB t p k hp ?_)
      rcases pc_eq with ⟨rest, active, deadIds, rfl⟩ | rfl <;> rfl
    | taken save detached h' pc_eq before next handle dropped =>
      rw [Tasks.resume_mem, handle] at hk
      cases hk
    | cleared h' retire err pc_eq before next handle dropped =>
      rw [Tasks.resume_mem, handle] at hk
      cases hk

/-! ### A leased child is in good hands -/

/- A leased child is in a session's handle, or about to be settled by a task. -/
def Covered (x : World) : Prop :=
  ∀ w ∈ x.mem.children, x.mem.leasedAt w = true →
    (∃ k, x.mem.workerOf k = some w) ∨ ∃ t p, x.tasks t = some p ∧ p.settles = some w

theorem SettledBy.covered (h : SettledBy x t w) (hI : Inv cfg own x)
    (hstep : step cfg x a = some x')
    (ha : ∀ u, a.Moves u → u = t) : ∃ t p, x'.tasks t = some p ∧ p.settles = some w := by
  obtain ⟨u, hu, hne, hs⟩ := h
  obtain ⟨p, hp, hps⟩ := Option.bind_eq_some_iff.mp hs
  exact ⟨u, p, step_kept hI hstep hp (fun hmoves => hne (ha u hmoves)), hps⟩

theorem moves_advance {o : Outcome} (h : (Act.advance t o).Moves u) : u = t := by
  rcases h with h | ⟨_, h⟩ <;> cases h
  rfl

theorem moves_drop (h : (Act.drop t).Moves u) : u = t := by
  rcases h with h | ⟨_, h⟩ <;> cases h
  rfl

/- A handle that is lost has gone to a release or a retirement. -/
theorem handle_covered (hI : Inv cfg own x) (hK : KeepsLease x a) (h : step cfg x a = some x')
    (hk : x.mem.workerOf k = some w) (hw : x.mem.leasedAt w = true) :
    (∃ k, x'.mem.workerOf k = some w) ∨ ∃ t p, x'.tasks t = some p ∧ p.settles = some w := by
  by_cases hadv : ∀ t o, a ≠ .advance t o
  · refine .inl ⟨k, ?_⟩
    unfold Pool.workerOf
    rw [step_handle hI h hadv]
    exact hk
  · push Not at hadv
    obtain ⟨t, o, rfl⟩ := hadv
    obtain ⟨p, m, hp, hm, rfl⟩ := step_advance_iff.mp h
    have hself := Tasks.resume_self m (hI.lt_next hp)
    cases advance_session hm k with
    | same handle dropped =>
      refine .inl ⟨k, ?_⟩
      unfold Pool.workerOf
      rw [Tasks.resume_mem, handle]
      exact hk
    | stored timeout v sessionId pc_eq handle dropped =>
      -- the lease holds the handle lock of a session without a handle
      exfalso
      have hnone : x.mem.handleOf k = none := by
        rcases pc_eq with ⟨rest, active, deadIds, rfl⟩ | rfl
        · exact (hI.good t _ hp).2.1.2
        · exact (hI.good t _ hp).2.1.2
      rw [Pool.workerOf, hnone] at hk
      cases hk
    | taken save detached hd pc_eq before next handle dropped =>
      rw [Pool.workerOf, before] at hk
      cases hk
      exact .inr ⟨t, _, hself, by rw [next]; rfl⟩
    | cleared hd retire err pc_eq before next handle dropped =>
      rw [hk] at before
      cases before
      cases retire with
      | true => exact .inr ⟨t, _, hself, by rw [next]; rfl⟩
      | false =>
        subst pc_eq
        simp only [KeepsLease, hp] at hK
        exact .inr ((hK hk hw).covered hI h fun u => moves_advance)

theorem leasedAt_not_dead (hw : s.leasedAt w = true) : s.stateOf w ≠ some .dead := by
  obtain ⟨sessionId, hst⟩ := leasedAt_iff.mp hw
  rw [hst]
  simp

/- A resumed settler ends the lease, or is still to. -/
theorem settler_advance {o : Outcome} {m : Move} (hm : advance cfg s t o p = some m)
    (hs : p.settles = some w) (hw : s.leasedAt w = true) (hw' : m.mem.leasedAt w = true) :
    m.point.settles = some w := by
  rcases settles_iff.mp hs with ⟨h, save, rfl, rfl⟩ | ⟨h, save, rfl, rfl⟩ | ⟨ctx, rfl⟩
  · cases advanceRelease_move hm with
    | locked slot found free => rfl
  · exfalso
    cases advanceRelease_move hm with
    | diedBefore slot found dead => exact leasedAt_not_dead hw (by rw [stateOf_eq found, dead])
    | closing slot found live =>
      obtain ⟨sessionId, hst⟩ := leasedAt_iff.mp hw'
      rw [stateOf_setSlot, if_pos rfl] at hst
      cases hst
  · exfalso
    cases advanceRetire_move hm with
    | wasDead slot found dead => exact leasedAt_not_dead hw (by rw [stateOf_eq found, dead])
    | killed slot found live => exact leasedAt_not_dead hw' (kill_slot found).1

/- A dropped settler leaves a guard behind, unless it is a dispatch. -/
theorem settler_dropped {m : Move} (hm : dropTask s t p = some m) (hs : p.settles = some w) :
    (∃ sessionId rest, m.spawned = .retire w (.guard t sessionId) .take :: rest) ∨
      ∃ k sessionId err, p = .retire w (.dispatch k sessionId err) .take := by
  rcases settles_iff.mp hs with ⟨h, save, rfl, rfl⟩ | ⟨h, save, rfl, rfl⟩ | ⟨ctx, rfl⟩
  · cases hm
    exact .inl ⟨_, _, rfl⟩
  · cases hm
    exact .inl ⟨_, _, rfl⟩
  · cases ctx with
    | call | release =>
      cases hm
      exact .inl ⟨_, _, rfl⟩
    | dispatch => exact .inr ⟨_, _, _, rfl⟩
    | guard | reservation | shutdown => cases hm

theorem settler_covered (hI : Inv cfg own x) (hK : KeepsLease x a) (h : step cfg x a = some x')
    (hp : x.tasks t = some p) (hs : p.settles = some w) (hw : x.mem.leasedAt w = true)
    (hw' : x'.mem.leasedAt w = true) :
    (∃ k, x'.mem.workerOf k = some w) ∨ ∃ t p, x'.tasks t = some p ∧ p.settles = some w := by
  by_cases hmoves : a.Moves t
  · rcases hmoves with rfl | ⟨o, rfl⟩
    · obtain ⟨m, hm, hx'⟩ := step_drop_at hp h
      rcases settler_dropped hm hs with ⟨sessionId, rest, hspawned⟩ | ⟨k, sessionId, err, rfl⟩
      · subst hx'
        exact .inr ⟨x.next + 0, _, Tasks.spawn_new (by rw [hspawned]; rfl), rfl⟩
      · simp only [KeepsLease, hp] at hK
        rcases hK hw with ⟨k, -, hk⟩ | hother
        · exact handle_covered hI (by simp only [KeepsLease, hp]; exact hK) h hk hw
        · exact .inr (hother.covered hI h fun u => moves_drop)
    · obtain ⟨m, hm, rfl⟩ := step_advance_at hp h
      exact .inr ⟨t, _, Tasks.resume_self m (hI.lt_next hp), settler_advance hm hs hw hw'⟩
  · exact .inr ⟨t, p, step_kept hI h hp hmoves, hs⟩

/- A slot is granted, or joins the children leased, together with a handle. -/
theorem granted_handle {o : Outcome} {m : Move} {timeout active : ℕ} {rest deadIds : List WorkerId}
    (hm : advance cfg s t o (.lease k timeout (.scan (w :: rest) active deadIds)) = some m)
    (hidle : s.stateOf w = some .idle) : m.mem.workerOf k = some w := by
  cases advanceLease_move hm with
  | granted w rest active deadIds slot se found idle session =>
    exact congrArg (Option.map Handle.workerId) (handleOf_setSession.trans (if_pos rfl))
  | foundDead w rest active deadIds slot found dead =>
    rw [stateOf_eq found, dead] at hidle
    cases hidle
  | foundBusy w rest active deadIds slot found live busy =>
    rw [stateOf_eq found] at hidle
    exact absurd (Option.some.inj hidle) busy

theorem installed_handle {o : Outcome} {m : Move} {timeout : ℕ}
    (hm : advance cfg s t o (.lease k timeout (.install w none)) = some m) :
    m.mem.workerOf k = some w := by
  cases advanceLease_move hm with
  | installed w se free session =>
    exact congrArg (Option.map Handle.workerId) (handleOf_setSession.trans (if_pos rfl))

/- The state a reserved slot is in tells the reservation of a lease from the others. -/
theorem reserved_leased (hg : Good cfg own s t p) (hr : p.reserves = some w)
    (hw : s.leasedAt w = true) :
    (∃ k timeout, p = .lease k timeout (.install w none)) ∨ ∃ built, p = .unreserve w built := by
  obtain ⟨sessionId, hst⟩ := leasedAt_iff.mp hw
  have hnot : ∀ y, s.stateOf w = y → y = none ∨ y = some .idle → False := by
    rintro y hy (rfl | rfl) <;> rw [hst] at hy <;> cases hy
  unfold Pc.reserves at hr
  split at hr <;> cases hr
  · exact (hnot _ hg.2.2.2.2.2 (.inl rfl)).elim
  · rename_i failed
    cases failed with
    | none => exact (hnot _ hg.2.2.2.2.2 (.inr rfl)).elim
    | some err => exact (hnot _ hg.2.2.2.2.2 (.inl rfl)).elim
  · exact (hnot _ hg.2.2.2.2 (.inl rfl)).elim
  · rename_i failed
    cases failed with
    | none => exact .inl ⟨_, _, rfl⟩
    | some err => exact (hnot _ hg.2.2.1.2.2 (.inl rfl)).elim
  · exact (hnot _ hg.2.2.2.2.2.2 (.inl rfl)).elim
  · rename_i failed
    cases failed with
    | none => exact (hnot _ hg.2.2.2.2.2.2 (.inr rfl)).elim
    | some err => exact (hnot _ hg.2.2.2.2.2.2 (.inl rfl)).elim
  · exact .inr ⟨_, rfl⟩

/- Only `lease` adds a leased slot to the children, with the handle on it. -/
theorem new_child_covered {o : Outcome} {m : Move} (hg : Good cfg own s t p)
    (hm : advance cfg s t o p = some m) (hold : w ∉ s.children) (hnew : w ∈ m.mem.children)
    (hw : m.mem.leasedAt w = true) : ∃ k, m.mem.workerOf k = some w := by
  cases advance_registry hg hm with
  | same children => exact absurd (children ▸ hnew) hold
  | forgot ids dead state children | reserved ids dead state children =>
    rw [children] at hnew
    exact absurd (List.mem_of_mem_filter hnew) hold
  | released id state children => exact absurd (children ▸ hnew) hold
  | installed id live state children spawning before =>
    obtain rfl : w = id := by
      rcases List.mem_append.mp (children ▸ hnew) with h | h
      · exact absurd h hold
      · exact List.mem_singleton.mp h
    have hleased : s.leasedAt w = true := by
      unfold Pool.leasedAt
      rw [← state w]
      exact hw
    rcases reserved_leased hg before hleased with ⟨k, timeout, rfl⟩ | ⟨built, rfl⟩
    · exact ⟨k, installed_handle hm⟩
    · -- a reservation that was dropped installs nothing
      cases advance_moves hm with
      | single outcome move =>
        cases move with
        | unreserved id built free => exact absurd hnew hold

theorem covered_step (hC : Covered x) (hI : Inv cfg own x) (hK : KeepsLease x a)
    (h : step cfg x a = some x') : Covered x' := by
  intro w hchild hw'
  by_cases hadv : ∃ t o, a = .advance t o ∧ w ∉ x.mem.children
  · obtain ⟨t, o, rfl, hnew⟩ := hadv
    obtain ⟨p, m, hp, hm, rfl⟩ := step_advance_iff.mp h
    exact .inl (new_child_covered (hI.good t p hp) hm hnew hchild hw')
  have hold : w ∈ x.mem.children := by
    by_contra hnew
    refine hnew ((step_registry h ?_).1 ▸ hchild)
    exact fun t o ha => hadv ⟨t, o, ha, hnew⟩
  obtain ⟨sessionId, hst'⟩ := leasedAt_iff.mp hw'
  rcases leased_before hI h (hI.global.children_known w hold) hst' with hst | hgrant
  · have hw : x.mem.leasedAt w = true := leasedAt_iff.mpr ⟨sessionId, hst⟩
    rcases hC w hold hw with ⟨k, hk⟩ | ⟨t, p, hp, hs⟩
    · exact handle_covered hI hK h hk hw
    · exact settler_covered hI hK h hp hs hw hw'
  · obtain ⟨t, o, k, timeout, rest, active, deadIds, rfl, hp, hidle, -⟩ := hgrant
    obtain ⟨m, hm, rfl⟩ := step_advance_at hp h
    exact .inl ⟨k, granted_handle hm hidle⟩

/-! ### The quiet pool -/

/- The tasks that give a lease back: those of a dropped session, the releases and the
retirements. -/
def Pc.givesBack : Pc → Bool
  | .takeHandle _ _ true | .release .. | .retire .. => true
  | _ => false

theorem settles_givesBack (hs : p.settles = some w) : p.givesBack = true := by
  rcases settles_iff.mp hs with ⟨h, save, rfl, rfl⟩ | ⟨h, save, rfl, rfl⟩ | ⟨ctx, rfl⟩ <;> rfl

/- What the leases keep along a run. -/
structure LeaseInv (x : World) : Prop where
  borrowed : Borrowed x
  attended : Attended x
  covered : Covered x

theorem init_leaseInv (cfg : Config) : LeaseInv (init cfg) where
  borrowed t p k hp hk := by
    simp only [init] at hp
    split at hp <;> cases hp
    cases hk
  attended k h hk := by cases hk
  covered w hw := by cases hw

theorem LeaseInv.step (hL : LeaseInv x) (hI : Inv cfg own x) (hK : KeepsLease x a)
    (h : step cfg x a = some x') : LeaseInv x' where
  borrowed := borrowed_step hL.borrowed hI h
  attended := attended_step hL.attended hL.borrowed hI h
  covered := covered_step hL.covered hI hK h

/-- Along a run in which no dispatch leaves a leased slot behind, every leased child of
a quiet pool is in the handle of one live session. -/
theorem leased_in_one_handle {as : List Act} (hrun : Runs.run (step cfg) (init cfg) as = some x)
    (hkeeps : Runs.Along (step cfg) KeepsLease (init cfg) as)
    (hquiet : ∀ u p, x.tasks u = some p → p.givesBack = false) (hw : w ∈ x.mem.children)
    (hleased : x.mem.stateOf w = some (.leased sessionId)) :
    ∃ k, x.mem.handleOf k = some ⟨sessionId, w⟩ ∧ x.mem.idOf k = some sessionId ∧
      x.mem.droppedOf k = some false ∧ ∀ j, x.mem.workerOf j = some w → j = k := by
  obtain ⟨⟨own, hI⟩, hL⟩ := run_pool_along
    (fun own v b v' hv hL hb hs => LeaseInv.step hL hv hb hs) ⟨_, init_inv cfg⟩ (init_leaseInv cfg)
    hkeeps hrun
  rcases hL.covered w hw (leasedAt_iff.mpr ⟨sessionId, hleased⟩) with ⟨k, hk⟩ | ⟨t, p, hp, hs⟩
  · obtain ⟨h, hh, rfl⟩ := Option.map_eq_some_iff.mp hk
    obtain ⟨hown, hid, -, hstate⟩ := hI.global.handle_ok k h hh
    obtain rfl : h.sessionId = sessionId := by
      have he := hstate.leased_eq hleased
      cases he
      rfl
    refine ⟨k, hh, hid, ?_, fun j hj => ?_⟩
    · rcases hL.attended k h hh with halive | ⟨t, save, ht⟩
      · exact halive
      · cases hquiet t _ ht
    · obtain ⟨h', hh', hw'⟩ := Option.map_eq_some_iff.mp hj
      have hown' := (hI.global.handle_ok j h' hh').1
      rw [hw', hown] at hown'
      cases hown'
      rfl
  · have hgives := settles_givesBack hs
    rw [hquiet t p hp] at hgives
    cases hgives

/- A call that the child answered with a plain tool error, then a second session. -/
def answered : List Act :=
  [go 0, .newSession "A", .openObserved 0 none, go 1, go 1, .advance 1 .spawned, go 1, go 1, go 1,
    .advance 1 (.answer (.result none (some "p"))), go 1, .callTool 0 "decompile" none, go 2, go 2,
    go 2, .advance 2 (.answer (.result (some (.idaError "no hexrays")) none)), .newSession "B",
    .openObserved 1 none, .drop 3]

theorem leased_in_one_handle_answered :
    ∃ x, Runs.run (step ⟨1, 0, 0, 600⟩) (init ⟨1, 0, 0, 600⟩) answered = some x ∧
      ∃ k, x.mem.handleOf k = some ⟨"A", 0⟩ ∧ x.mem.idOf k = some "A" ∧
        x.mem.droppedOf k = some false ∧ ∀ j, x.mem.workerOf j = some 0 → j = k := by
  have hrun : (Runs.run (step ⟨1, 0, 0, 600⟩) (init ⟨1, 0, 0, 600⟩) answered).any (fun x =>
      decide ((∀ u < x.next, (x.tasks u).map Pc.givesBack = some false) ∧ 0 ∈ x.mem.children ∧
        x.mem.stateOf 0 = some (.leased "A"))) = true := by
    decide +kernel
  obtain ⟨x, hx, hp⟩ := (Option.any_eq_true _ _).mp hrun
  obtain ⟨hquiet, hchild, hleased⟩ := of_decide_eq_true hp
  obtain ⟨own, hI⟩ := reachable_inv ⟨_, hx⟩
  refine ⟨x, hx, leased_in_one_handle hx (by decide +kernel) ?_ hchild hleased⟩
  intro u p hu
  have hgives := hquiet u (hI.lt_next hu)
  rw [hu] at hgives
  exact Option.some.inj hgives

/- The child of session A answers that it is closing. `dispatch` clears the handle, and
its future is dropped before `mark_dead` takes the slot. -/
def droppedBeforeRetire : List Act :=
  [go 0, .newSession "A", .openObserved 0 none, go 1, go 1, .advance 1 .spawned, go 1, go 1, go 1,
    .advance 1 (.answer (.result none (some "p"))), go 1, .callTool 0 "decompile" none, go 2, go 2,
    go 2, .advance 2 (.answer (.result (some .workerClosed) none)), go 2, .drop 2]

/- A call of session A waits while A closes, and finds the slot idle. A opens again and
is given the same slot; the failed call then clears the new handle. -/
def clearedReopened : List Act :=
  [go 0, .newSession "A", .openObserved 0 none, go 1, go 1, .advance 1 .spawned, go 1, go 1, go 1,
    .advance 1 (.answer (.result none (some "p"))), go 1, .callTool 0 "decompile" none, go 2,
    .closeWithSave 0 true, go 3, go 3, go 3, .advance 3 (.answer (.result none none)), go 3, go 3,
    go 4, go 2, go 2, .openObserved 0 none, go 5, go 5, go 5, go 5, go 5,
    .advance 5 (.answer (.result none (some "p"))), go 5, go 2]

/- The run ends with all tasks over and a leased slot that is in no handle. -/
def LeavesLease (as : List Act) : Prop :=
  ∃ x, Runs.run (step ⟨1, 0, 0, 600⟩) (init ⟨1, 0, 0, 600⟩) as = some x ∧
    (∀ u < x.next, ∃ exit, x.tasks u = some (.done exit)) ∧ 0 ∈ x.mem.children ∧
    x.mem.stateOf 0 = some (.leased "A") ∧ ∀ k < x.mem.nextSession, x.mem.handleOf k = none

theorem lease_without_handle : LeavesLease droppedBeforeRetire ∧ LeavesLease clearedReopened := by
  have hrun : ∀ as ∈ [droppedBeforeRetire, clearedReopened],
      (Runs.run (step ⟨1, 0, 0, 600⟩) (init ⟨1, 0, 0, 600⟩) as).any (fun x =>
        decide ((∀ u < x.next, (x.tasks u).any Pc.ended = true) ∧ 0 ∈ x.mem.children ∧
          x.mem.stateOf 0 = some (.leased "A") ∧
          ∀ k < x.mem.nextSession, x.mem.handleOf k = none)) = true := by
    decide +kernel
  have hleaves : ∀ as ∈ [droppedBeforeRetire, clearedReopened], LeavesLease as := by
    intro as has
    obtain ⟨x, hx, hp⟩ := (Option.any_eq_true _ _).mp (hrun as has)
    obtain ⟨hended, hchild, hleased, hnone⟩ := of_decide_eq_true hp
    refine ⟨x, hx, fun u hu => ?_, hchild, hleased, hnone⟩
    obtain ⟨p, hp, he⟩ := (Option.any_eq_true _ _).mp (hended u hu)
    obtain ⟨exit, rfl⟩ := ended_iff.mp he
    exact ⟨exit, hp⟩
  exact ⟨hleaves _ (by simp), hleaves _ (by simp)⟩

end IdaHeadless.WorkerPool
