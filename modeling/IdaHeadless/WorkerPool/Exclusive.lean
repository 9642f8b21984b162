import IdaHeadless.WorkerPool.Flow

/-!
# One session at a time

While a slot is leased to session B, a step on behalf of another session A should
neither send to its worker nor change its state. The retirements that a dropped
call or a failed dispatch of A leaves behind break this: nothing ties them to the
lease they were requested in, so they may find the slot leased to B. Where every
lease takes a slot without such a retirement outstanding, the property holds.
-/

namespace IdaHeadless.WorkerPool

def RetireCtx.session : RetireCtx → Option String
  | .guard _ sessionId | .call _ sessionId _ _ | .release sessionId _ _
  | .dispatch _ sessionId _ => some sessionId
  | .reservation | .shutdown => none

/- The session on whose behalf a task runs. -/
def Pc.session (s : Pool) : Pc → Option String
  | .lease k _ _ | .dispatchHandle k _ _ | .takeHandle k _ _ => s.idOf k
  | .call _ h _ _ _ | .dispatchClear _ h _ _ | .openStore _ h _ | .release h _ _ =>
    some h.sessionId
  | .retire _ ctx _ => ctx.session
  | .done _ | .warm .. | .reap .. | .unreserve .. => none

/- A retirement without the call lock that is still to come: of which slot, and for
which session. -/
def Pc.retiring : Pc → Option (WorkerId × String)
  | .retire w (.guard _ sessionId) .take | .retire w (.dispatch _ sessionId _) .take =>
    some (w, sessionId)
  | .dispatchClear _ h true _ => some (h.workerId, h.sessionId)
  | _ => none

/- If the step leases slot `w` to a session, no retirement of `w` for another session
is outstanding. -/
def GrantsClean (x : World) : Act → Prop
  | .advance t _ =>
    match x.tasks t with
    | some (.lease k _ (.scan (w :: _) _ _)) =>
      x.mem.stateOf w = some .idle → ∀ u < x.next, ∀ r ∈ (x.tasks u).bind Pc.retiring,
        r.1 = w → x.mem.idOf k = some r.2
    | _ => True
  | _ => True

instance (x : World) (a : Act) : Decidable (GrantsClean x a) := by
  unfold GrantsClean
  split
  · split <;> infer_instance
  · infer_instance

/- The outstanding retirements of a leased slot are for the session that has it. -/
def RetiresOwn (x : World) : Prop :=
  ∀ u p w sessionA sessionB, x.tasks u = some p → p.retiring = some (w, sessionA) →
    x.mem.stateOf w = some (.leased sessionB) → sessionA = sessionB

variable {cfg : Config} {own : Own} {s : Pool} {x x' : World} {a : Act} {t u : TaskId} {p q : Pc}
  {w : WorkerId} {sessionA sessionB : String}

theorem retiring_iff : p.retiring = some (w, sessionA) ↔
    (∃ origin, p = .retire w (.guard origin sessionA) .take) ∨
    (∃ k err, p = .retire w (.dispatch k sessionA err) .take) ∨
    ∃ k err, p = .dispatchClear k ⟨sessionA, w⟩ true err := by
  constructor
  · intro hp
    unfold Pc.retiring at hp
    split at hp <;> cases hp
    · exact .inl ⟨_, rfl⟩
    · exact .inr (.inl ⟨_, _, rfl⟩)
    · exact .inr (.inr ⟨_, _, rfl⟩)
  · rintro (⟨origin, rfl⟩ | ⟨k, err, rfl⟩ | ⟨k, err, rfl⟩) <;> rfl

theorem retiring_known (hg : Good cfg own s u p) (hp : p.retiring = some (w, sessionA)) :
    Known s w := by
  rcases retiring_iff.mp hp with ⟨origin, rfl⟩ | ⟨k, err, rfl⟩ | ⟨k, err, rfl⟩
  · exact hg.2.1
  · exact hg.2.1
  · exact hg.2.1

/- The edges into an outstanding retirement. -/
theorem retiring_from (hf : Flow p q) (hq : q.retiring = some (w, sessionA)) :
    (∃ k tool timeout, p = .call k ⟨sessionA, w⟩ (.dispatch tool) timeout .await) ∨
    ∃ k err, p = .dispatchClear k ⟨sessionA, w⟩ true err := by
  rcases retiring_iff.mp hq with ⟨origin, rfl⟩ | ⟨k, err, rfl⟩ | ⟨k, err, rfl⟩
  · cases hf
  · cases hf
    exact .inr ⟨_, _, rfl⟩
  · cases hf
    exact .inl ⟨_, _, _, rfl⟩

/- Both are at awaits that change no slot. -/
theorem retiring_moved {o : Outcome} {m : Move} (hR : RetiresOwn x) (hI : Inv cfg own x)
    (hp : x.tasks u = some p) (hm : advance cfg x.mem u o p = some m) (hf : Flow p q)
    (hq : q.retiring = some (w, sessionA)) (hw : m.mem.stateOf w = some (.leased sessionB)) :
    sessionA = sessionB := by
  have hslot := advance_slot hm w
  rcases retiring_from hf hq with ⟨k, tool, timeout, rfl⟩ | ⟨k, err, rfl⟩
  · have hold := (hslot.unwritten (by simp [Pc.writes])).1.symm.trans hw
    have he := (hI.good u _ hp).2.2.1.2.leased_eq hold
    cases he
    rfl
  · have hold := (hslot.unwritten (by simp [Pc.writes])).1.symm.trans hw
    exact hR u _ _ _ _ hp rfl hold

/- The retirements a dropped future leaves behind. -/
theorem retiring_dropped (hg : Good cfg own s t p) (hd : Drops t p q)
    (hq : q.retiring = some (w, sessionA)) (hw : s.stateOf w = some (.leased sessionB)) :
    sessionA = sessionB := by
  cases hd with
  | call k h c timeout =>
    cases hq
    have he := hg.2.2.1.2.leased_eq hw
    cases he
    rfl
  | release h save stage unfinished =>
    cases hq
    cases stage with
    | lock =>
      have he := hg.2.2.2.leased_eq hw
      cases he
      rfl
    | child =>
      have he := hg.2.2.2.2.leased_eq hw
      cases he
      rfl
    | close | final =>
      have he := hg.2.2.2.2.leased_eq hw
      cases he
    | idleCheck exit => exact absurd rfl (unfinished exit)
  | retireCall v k sessionId c err stage =>
    cases hq
    have he := hg.2.2.1.2.1.leased_eq hw
    cases he
    rfl
  | retireRelease v sessionId save err stage =>
    cases hq
    have he := hg.2.2.1.2.2.leased_eq hw
    cases he
  | spawn | install => cases hq

theorem step_retiresOwn (hI : Inv cfg own x) (hR : RetiresOwn x) (hG : GrantsClean x a)
    (h : step cfg x a = some x') : RetiresOwn x' := by
  intro u q w sessionA sessionB hu hq hw
  cases step_task h hu with
  | kept before other =>
    rcases leased_before hI h (retiring_known (hI.good u q before) hq) hw with hold | hnew
    · exact hR u q w _ _ before hq hold
    · obtain ⟨t, o, k, timeout, rest, active, deadIds, ha, hpc, hidle, hid⟩ := hnew
      subst ha
      simp only [GrantsClean, hpc] at hG
      have hown := hG hidle u (hI.lt_next before) (w, sessionA) (by simp [before, hq]) rfl
      rw [hid] at hown
      exact (Option.some.inj hown).symm
  | moved o p m act before move point world =>
    subst world
    rcases advance_goes move with hf | ⟨exit, he, -⟩
    · rw [← point] at hf
      exact retiring_moved hR hI before move hf hq hw
    · rw [point, he] at hq
      cases hq
  | dropped p m act before move point world =>
    obtain ⟨exit, he⟩ := dropTask_point move
    rw [point, he] at hq
    cases hq
  | started before start =>
    cases start with
    | drops t p q pc_eq left =>
      obtain ⟨m, hm, rfl⟩ := step_drop_at pc_eq h
      exact retiring_dropped (hI.good t p pc_eq) left hq ((dropTask_slot hm w).1.symm.trans hw)
    | openObserved | callTool | closeWithSave | dropSession | shutdownAll | reap => cases hq

/-! ### A step on behalf of A -/

theorem other_session_step (hI : Inv cfg own x) (hR : RetiresOwn x) (h : step cfg x a = some x')
    (ha : a.Moves t) (hp : x.tasks t = some p) (hA : p.session x.mem = some sessionA)
    (hw : x.mem.stateOf w = some (.leased sessionB)) (hne : sessionA ≠ sessionB) :
    x'.mem.stateOf w = some (.leased sessionB) ∧ x'.mem.sentOf w = x.mem.sentOf w := by
  rcases step_slot h w with ⟨hst, hse⟩ | ⟨t', o, p', rfl, hp', hc⟩
  · exact ⟨hst.trans hw, hse⟩
  · obtain rfl : t = t' := by
      rcases ha with ha | ⟨_, ha⟩ <;> cases ha
      rfl
    rw [hp] at hp'
    cases hp'
    have hg := hI.good t p hp
    cases hc with
    | same state sent => exact ⟨state.trans hw, sent⟩
    | builtIdle pc_eq state =>
      rcases pc_eq with ⟨left, rfl⟩ | ⟨v, ctx, rfl⟩
      · cases hA
      · have hnone := hg.2.2.2.2.2.2
        rw [hw] at hnone
        cases hnone
    | builtLeased k timeout sessionId pc_eq id state =>
      subst pc_eq
      have hnone := hg.2.2.2.2
      rw [hw] at hnone
      cases hnone
    | called k hd caller timeout pc_eq worker before state =>
      subst pc_eq
      rw [hw] at before
      cases before
      cases hA
      exact absurd rfl hne
    | granted k timeout active rest deadIds sessionId pc_eq before id state sent =>
      rw [hw] at before
      cases before
    | closing hd save pc_eq worker before state =>
      subst pc_eq worker
      have he := hg.2.2.2.2.leased_eq hw
      cases he
      cases hA
      exact absurd rfl hne
    | recycled hd save pc_eq worker before state path =>
      subst pc_eq worker
      have he := hg.2.2.2.2.leased_eq hw
      cases he
    | retired ctx pc_eq state sent =>
      subst pc_eq
      cases ctx with
      | guard origin sessionId =>
        cases hA
        exact absurd (hR t _ w _ _ hp rfl hw) hne
      | dispatch k sessionId err =>
        cases hA
        exact absurd (hR t _ w _ _ hp rfl hw) hne
      | call k sessionId caller err =>
        have he := hg.2.2.1.2.1.leased_eq hw
        cases he
        cases hA
        exact absurd rfl hne
      | release sessionId save err =>
        have he := hg.2.2.1.2.2.leased_eq hw
        cases he
      | reservation | shutdown => cases hA
    | reaped started pc_eq before state sent =>
      rw [hw] at before
      cases before

/-- Along a run whose grants are clean, a step on behalf of session A leaves a slot
that is leased to another session B as it is. -/
theorem exclusive_if_grants_clean {as : List Act}
    (hrun : Runs.run (step cfg) (init cfg) as = some x)
    (hclean : Runs.Along (step cfg) GrantsClean (init cfg) as)
    (h : step cfg x a = some x') (ha : a.Moves t) (hp : x.tasks t = some p)
    (hA : p.session x.mem = some sessionA) (hw : x.mem.stateOf w = some (.leased sessionB))
    (hne : sessionA ≠ sessionB) :
    x'.mem.stateOf w = some (.leased sessionB) ∧ x'.mem.sentOf w = x.mem.sentOf w := by
  have hinit : RetiresOwn (init cfg) := by
    intro u p w sessionA sessionB hu hq
    simp only [init] at hu
    split at hu <;> cases hu
    cases hq
  obtain ⟨⟨own, hI⟩, hR⟩ := run_pool_along
    (fun own v b v' hv hR hb hs => step_retiresOwn hv hR hb hs) ⟨_, init_inv cfg⟩ hinit hclean hrun
  exact other_session_step hI hR h ha hp hA hw hne

/- Session A opens, closes, and B is given the slot. -/
def handedOn : List Act :=
  [go 0, .newSession "A", .newSession "B", .openObserved 0 none, go 1, go 1, .advance 1 .spawned,
    go 1, go 1, go 1, .advance 1 (.answer (.result none (some "p"))), go 1,
    .closeWithSave 0 true, go 2, go 2, go 2, .advance 2 (.answer (.result none none)), go 2,
    .openObserved 1 none, go 3, go 3, go 3, .callTool 0 "decompile" none]

theorem exclusive_handed_on :
    ∃ x x', Runs.run (step ⟨1, 0, 300, 600⟩) (init ⟨1, 0, 300, 600⟩) handedOn = some x ∧
      step ⟨1, 0, 300, 600⟩ x (go 4) = some x' ∧
      x'.mem.stateOf 0 = some (.leased "B") ∧ x'.mem.sentOf 0 = x.mem.sentOf 0 := by
  have hrun : (Runs.run (step ⟨1, 0, 300, 600⟩) (init ⟨1, 0, 300, 600⟩) handedOn).any (fun x =>
      (step ⟨1, 0, 300, 600⟩ x (go 4)).isSome &&
      decide (x.tasks 4 = some (.dispatchHandle 0 "decompile" 600) ∧ x.mem.idOf 0 = some "A" ∧
        x.mem.stateOf 0 = some (.leased "B"))) = true := by
    decide +kernel
  have hclean :
      Runs.Along (step ⟨1, 0, 300, 600⟩) GrantsClean (init ⟨1, 0, 300, 600⟩) handedOn := by
    decide +kernel
  obtain ⟨x, hx, hp⟩ := (Option.any_eq_true _ _).mp hrun
  obtain ⟨hstep, hfacts⟩ := Bool.and_eq_true_iff.mp hp
  obtain ⟨x', hx'⟩ := Option.isSome_iff_exists.mp hstep
  obtain ⟨htask, hid, hw⟩ := of_decide_eq_true hfacts
  exact ⟨x, x', hx, hx', exclusive_if_grants_clean hx hclean hx' (.inr ⟨.go, rfl⟩) htask hid hw
    (by decide)⟩

/- A call of session A is dropped; before the task of its guard runs, A's release
recycles the slot and B leases it. The task then kills B's worker. -/
def lateGuard : List Act :=
  [go 0, .newSession "A", .newSession "B", .openObserved 0 none, go 1, go 1, .advance 1 .spawned,
    go 1, go 1, go 1, .advance 1 (.answer (.result none (some "p"))), go 1,
    .callTool 0 "decompile" none, go 2, go 2, go 2, .drop 2,
    .closeWithSave 0 true, go 4, go 4, go 4, .advance 4 (.answer (.result none none)), go 4,
    .openObserved 1 none, go 5, go 5, go 5]

theorem late_guard_kills :
    ∃ x x', Runs.run (step ⟨1, 0, 300, 600⟩) (init ⟨1, 0, 300, 600⟩) lateGuard = some x ∧
      step ⟨1, 0, 300, 600⟩ x (go 3) = some x' ∧
      x.tasks 3 = some (.retire 0 (.guard 2 "A") .take) ∧
      x.mem.stateOf 0 = some (.leased "B") ∧ x'.mem.stateOf 0 = some .dead := by
  have hrun : (Runs.run (step ⟨1, 0, 300, 600⟩) (init ⟨1, 0, 300, 600⟩) lateGuard).any (fun x =>
      decide (x.tasks 3 = some (.retire 0 (.guard 2 "A") .take) ∧
        x.mem.stateOf 0 = some (.leased "B")) &&
      (step ⟨1, 0, 300, 600⟩ x (go 3)).any fun x' =>
        decide (x'.mem.stateOf 0 = some .dead)) = true := by
    decide +kernel
  obtain ⟨x, hx, hp⟩ := (Option.any_eq_true _ _).mp hrun
  obtain ⟨hfacts, hstep⟩ := Bool.and_eq_true_iff.mp hp
  obtain ⟨x', hx', hdead⟩ := (Option.any_eq_true _ _).mp hstep
  obtain ⟨htask, hw⟩ := of_decide_eq_true hfacts
  exact ⟨x, x', hx, hx', htask, hw, of_decide_eq_true hdead⟩

end IdaHeadless.WorkerPool
