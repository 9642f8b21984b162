import IdaHeadless.WorkerPool.Invariant

/-!
# What a move may do to one slot

A slot changes its state, or is sent a request, at eight awaits only. `SlotChange`
lists them; every later fact about slots is read off it instead of off the
transitions.
-/

namespace IdaHeadless.WorkerPool

def Pool.sentOf (s : Pool) (w : WorkerId) : Option (List Request) := (s.slots w).map Slot.sent

/- Task waiting at `pc` takes slot `w` from `s` to `s'`. -/
inductive SlotChange (pc : Pc) (s s' : Pool) (w : WorkerId) : Prop where
  | same (state : s'.stateOf w = s.stateOf w) (sent : s'.sentOf w = s.sentOf w)
  | builtIdle
      (pc_eq : (∃ left, pc = .warm left (.spawn w)) ∨ ∃ v ctx, pc = .retire v ctx (.spawn w))
      (state : s'.stateOf w = some .idle)
  | builtLeased (k : SessionRef) (timeout : ℕ) (sessionId : String)
      (pc_eq : pc = .lease k timeout (.spawn w)) (id : s.idOf k = some sessionId)
      (state : s'.stateOf w = some (.leased sessionId))
  | called (k : SessionRef) (h : Handle) (caller : Caller) (timeout : ℕ)
      (pc_eq : pc = .call k h caller timeout .child) (worker : h.workerId = w)
      (before : s.stateOf w = some (.leased h.sessionId)) (state : s'.stateOf w = s.stateOf w)
  | granted (k : SessionRef) (timeout active : ℕ) (rest deadIds : List WorkerId)
      (sessionId : String) (pc_eq : pc = .lease k timeout (.scan (w :: rest) active deadIds))
      (before : s.stateOf w = some .idle) (id : s.idOf k = some sessionId)
      (state : s'.stateOf w = some (.leased sessionId)) (sent : s'.sentOf w = s.sentOf w)
  | closing (h : Handle) (save : Bool) (pc_eq : pc = .release h save .child)
      (worker : h.workerId = w) (before : s.stateOf w ≠ some .dead)
      (state : s'.stateOf w = some .closing)
  | recycled (h : Handle) (save : Bool) (pc_eq : pc = .release h save .final)
      (worker : h.workerId = w) (before : s.stateOf w ≠ some .dead)
      (state : s'.stateOf w = some .idle)
      (path : ∃ slot, s'.slots w = some slot ∧ slot.idbPath = none)
  | retired (ctx : RetireCtx) (pc_eq : pc = .retire w ctx .take)
      (state : s'.stateOf w = some .dead) (sent : s'.sentOf w = s.sentOf w)
  | reaped (started : ℕ) (pc_eq : pc = .reap w started .take)
      (before : s.stateOf w = some .idle) (state : s'.stateOf w = some .dead)
      (sent : s'.sentOf w = s.sentOf w)

variable {cfg : Config} {s s' : Pool} {t : TaskId} {o : Outcome} {m : Move} {pc : Pc}
  {w v : WorkerId} {slot slot' : Slot}

theorem sentOf_setSlot : (s.setSlot w slot).sentOf v =
    if v = w then some slot.sent else s.sentOf v := by
  unfold Pool.setSlot Pool.sentOf
  by_cases h : v = w <;> simp [h]

theorem sentOf_eq (h : s.slots w = some slot) : s.sentOf w = some slot.sent := by
  unfold Pool.sentOf
  rw [h]
  rfl

theorem sentOf_unlockCall : (s.unlockCall w).sentOf v = s.sentOf v := by
  by_cases h : v = w
  · simp [Pool.unlockCall, Pool.sentOf, h, Function.comp_def]
  · simp [Pool.unlockCall, Pool.sentOf, h]

theorem slots_setSlot_self : (s.setSlot w slot).slots w = some slot := Function.update_self ..

/- The memory has the slots of `s`. -/
theorem SlotChange.of_slots (h : s'.slots = s.slots) : SlotChange pc s s' w :=
  .same (by unfold Pool.stateOf; rw [h]) (by unfold Pool.sentOf; rw [h])

theorem SlotChange.unlockCall : SlotChange pc s (s.unlockCall v) w :=
  .same stateOf_unlockCall sentOf_unlockCall

/- A write to slot `v`: only the change of `v` itself is left to classify. -/
theorem SlotChange.setSlot (hself : SlotChange pc s (s.setSlot v slot) v) :
    SlotChange pc s (s.setSlot v slot) w := by
  by_cases h : w = v
  · rw [h]
    exact hself
  · exact .same (by rw [stateOf_setSlot, if_neg h]) (by rw [sentOf_setSlot, if_neg h])

theorem SlotChange.touch (hslot : s.slots v = some slot) (hstate : slot'.state = slot.state)
    (hsent : slot'.sent = slot.sent) : SlotChange pc s (s.setSlot v slot') w := by
  refine .setSlot (.same ?_ ?_)
  · rw [stateOf_setSlot, if_pos rfl, stateOf_eq hslot, hstate]
  · rw [sentOf_setSlot, if_pos rfl, sentOf_eq hslot, hsent]

/- Later writes that leave all slots alone do not matter. -/
theorem SlotChange.frame {s'' : Pool} (hc : SlotChange pc s s' w) (h : s''.slots = s'.slots) :
    SlotChange pc s s'' w := by
  have hst : s''.stateOf w = s'.stateOf w := by unfold Pool.stateOf; rw [h]
  have hse : s''.sentOf w = s'.sentOf w := by unfold Pool.sentOf; rw [h]
  cases hc with
  | same state sent => exact .same (hst.trans state) (hse.trans sent)
  | builtIdle pc_eq state => exact .builtIdle pc_eq (hst.trans state)
  | builtLeased k timeout sessionId pc_eq id state =>
    exact .builtLeased k timeout sessionId pc_eq id (hst.trans state)
  | called k hd caller timeout pc_eq worker before state =>
    exact .called k hd caller timeout pc_eq worker before (hst.trans state)
  | granted k timeout active rest deadIds sessionId pc_eq before id state sent =>
    exact .granted k timeout active rest deadIds sessionId pc_eq before id (hst.trans state)
      (hse.trans sent)
  | closing hd save pc_eq worker before state =>
    exact .closing hd save pc_eq worker before (hst.trans state)
  | recycled hd save pc_eq worker before state path =>
    exact .recycled hd save pc_eq worker before (hst.trans state) (by rw [h]; exact path)
  | retired ctx pc_eq state sent => exact .retired ctx pc_eq (hst.trans state) (hse.trans sent)
  | reaped started pc_eq before state sent =>
    exact .reaped started pc_eq before (hst.trans state) (hse.trans sent)

/- The slot that a task may change when it is resumed at `pc`. -/
def Pc.writes : Pc → Option WorkerId
  | .warm _ (.spawn id) | .retire _ _ (.spawn id) | .lease _ _ (.spawn id) => some id
  | .lease _ _ (.scan (w :: _) _ _) | .retire w _ .take | .reap w _ .take => some w
  | .call _ h _ _ .child | .release h _ .child | .release h _ .final => some h.workerId
  | _ => none

theorem SlotChange.unwritten (hc : SlotChange pc s s' w) (hw : pc.writes ≠ some w) :
    s'.stateOf w = s.stateOf w ∧ s'.sentOf w = s.sentOf w := by
  cases hc with
  | same state sent => exact ⟨state, sent⟩
  | builtIdle pc_eq =>
    rcases pc_eq with ⟨_, rfl⟩ | ⟨_, _, rfl⟩
    · exact absurd rfl hw
    · exact absurd rfl hw
  | called _ h _ _ pc_eq worker | closing h _ pc_eq worker | recycled h _ pc_eq worker =>
    subst pc_eq worker
    exact absurd rfl hw
  | builtLeased _ _ _ pc_eq | granted _ _ _ _ _ _ pc_eq | retired _ pc_eq | reaped _ pc_eq =>
    subst pc_eq
    exact absurd rfl hw

/-! ### One lemma for each kind of task -/

theorem warm_slot {left : ℕ} {stage : WarmStage} (hm : WarmMove s left stage o m) :
    SlotChange (.warm left stage) s m.mem w := by
  cases hm with
  | spawned left id =>
    exact .setSlot (.builtIdle (.inl ⟨left, rfl⟩) (by rw [stateOf_setSlot, if_pos rfl]; rfl))
  | _ => exact .of_slots rfl

theorem scanNext_slots {k : SessionRef} {timeout active : ℕ} {rest deadIds : List WorkerId} :
    (scanNext cfg s k timeout rest active deadIds).mem.slots = s.slots := by
  unfold scanNext
  split
  · rfl
  · split <;> rfl

theorem lease_slot {k : SessionRef} {timeout : ℕ} {stage : LeaseStage}
    (hm : LeaseMove cfg s t k timeout stage o m) :
    SlotChange (.lease k timeout stage) s m.mem w := by
  cases hm with
  | scans free => exact .of_slots scanNext_slots
  | foundDead v rest active deadIds slot found dead => exact .of_slots scanNext_slots
  | foundBusy v rest active deadIds slot found live busy => exact .of_slots scanNext_slots
  | granted v rest active deadIds slot se found idle session =>
    have hleased : SlotChange (.lease k timeout (.scan (v :: rest) active deadIds)) s
        (s.setSlot v { slot with state := .leased se.sessionId, lastUsed := s.now }) w := by
      refine .setSlot ?_
      refine .granted k timeout active rest deadIds se.sessionId rfl ?_ (idOf_eq session) ?_ ?_
      · rw [stateOf_eq found, idle]
      · rw [stateOf_setSlot, if_pos rfl]
      · rw [sentOf_setSlot, if_pos rfl, sentOf_eq found]
    exact hleased.frame rfl
  | spawned id se session =>
    exact .setSlot (.builtLeased k timeout se.sessionId rfl (idOf_eq session)
      (by rw [stateOf_setSlot, if_pos rfl]; rfl))
  | held | locked | spawnFailed | installed | failed => exact .of_slots rfl

theorem call_slot {k : SessionRef} {h : Handle} {caller : Caller} {timeout : ℕ}
    {stage : CallStage} (hm : CallMove s t k h caller timeout stage o m) :
    SlotChange (.call k h caller timeout stage) s m.mem w := by
  cases hm with
  | locked slot found free => exact .touch found rfl rfl
  | sent slot found leased =>
    refine .setSlot (.called k h caller timeout rfl rfl ?_ ?_)
    · rw [stateOf_eq found, leased]
    · rw [stateOf_setSlot, if_pos rfl, stateOf_eq found]
  | refused slot found other => exact .unlockCall
  | answered err info => exact .unlockCall
  | crashed | timedOut | cancelled => exact .of_slots rfl

theorem stateOf_ne_dead (hslot : s.slots w = some slot) (hlive : slot.state ≠ .dead) :
    s.stateOf w ≠ some .dead := by
  rw [stateOf_eq hslot]
  exact fun he => hlive (Option.some.inj he)

theorem release_slot {h : Handle} {save : Bool} {stage : ReleaseStage}
    (hm : ReleaseMove s t h save stage o m) : SlotChange (.release h save stage) s m.mem w := by
  cases hm with
  | locked slot found free => exact .touch found rfl rfl
  | diedBefore slot found dead => exact .unlockCall
  | diedAfter slot found dead => exact .unlockCall
  | closing slot found live =>
    refine .setSlot (.closing h save rfl rfl (stateOf_ne_dead found live) ?_)
    rw [stateOf_setSlot, if_pos rfl]
  | recycled slot found live =>
    have hset : (s.setSlot h.workerId { slot with
        state := .idle, lastUsed := s.now, idbPath := none }).slots h.workerId =
        some { slot with state := .idle, lastUsed := s.now, idbPath := none } :=
      slots_setSlot_self
    rw [unlockCall_eq hset]
    by_cases hw : w = h.workerId
    · subst hw
      refine .recycled h save rfl rfl (stateOf_ne_dead found live) ?_ ⟨_, slots_setSlot_self, rfl⟩
      rw [stateOf_setSlot, if_pos rfl]
    · refine .same ?_ ?_
      · rw [stateOf_setSlot, if_neg hw, stateOf_setSlot, if_neg hw]
      · rw [sentOf_setSlot, if_neg hw, sentOf_setSlot, if_neg hw]
  | closed | closeFailed | ended => exact .of_slots rfl

theorem retireDone_slot {ctx : RetireCtx} (hslots : s'.slots = s.slots) :
    SlotChange pc s (retireDone s' v ctx).mem w := by
  unfold retireDone
  dsimp only
  split
  · refine .same ?_ ?_
    · rw [stateOf_unlockCall]
      unfold Pool.stateOf
      rw [hslots]
    · rw [sentOf_unlockCall]
      unfold Pool.sentOf
      rw [hslots]
  · exact .of_slots hslots

theorem retireReplenish_slot {ctx : RetireCtx} (hslots : s'.slots = s.slots) :
    SlotChange pc s (retireReplenish s' v ctx).mem w := by
  unfold retireReplenish
  split
  · exact .of_slots hslots
  · exact retireDone_slot hslots

theorem kill_slot (hslot : s.slots v = some slot) :
    (s.setSlot v slot.kill).stateOf v = some .dead ∧
      (s.setSlot v slot.kill).sentOf v = s.sentOf v := by
  refine ⟨?_, ?_⟩
  · rw [stateOf_setSlot, if_pos rfl]
    rfl
  · rw [sentOf_setSlot, if_pos rfl, sentOf_eq hslot]
    rfl

theorem retire_slot {ctx : RetireCtx} {stage : RetireStage}
    (hm : RetireMove cfg s v ctx stage o m) : SlotChange (.retire v ctx stage) s m.mem w := by
  cases hm with
  | killed slot found live =>
    obtain ⟨hst, hse⟩ := kill_slot found
    exact .setSlot (.retired ctx rfl hst hse)
  | spawned id =>
    exact .setSlot (.builtIdle (.inr ⟨v, ctx, rfl⟩) (by rw [stateOf_setSlot, if_pos rfl]; rfl))
  | forgottenDead free => exact retireReplenish_slot rfl
  | finished => exact retireReplenish_slot rfl
  | enough satisfied => exact retireDone_slot rfl
  | failed id err free => exact retireDone_slot rfl
  | wasDead | forgotten | reserves | spawnFailed | installed => exact .of_slots rfl

theorem countNext_slots {started live : ℕ} {rest : List WorkerId} :
    (countNext cfg s v started rest live).mem.slots = s.slots := by
  unfold countNext
  split
  · rfl
  · split <;> rfl

theorem reap_slot {started : ℕ} {stage : ReapStage} (hm : ReapMove cfg s t v started stage o m) :
    SlotChange (.reap v started stage) s m.mem w := by
  cases hm with
  | counts free => exact .of_slots countNext_slots
  | counted c rest live slot found => exact .of_slots countNext_slots
  | reaped slot found idle unused =>
    obtain ⟨hst, hse⟩ := kill_slot found
    have hkilled : SlotChange (.reap v started .take) s (s.setSlot v slot.kill) w :=
      .setSlot (.reaped started rfl (by rw [stateOf_eq found, idle]) hst hse)
    exact hkilled.frame rfl
  | never | sleeps | wakes | kept | forgotten | finished => exact .of_slots rfl

theorem single_slot (hm : SingleMove s pc m) : SlotChange pc s m.mem w := by
  cases hm with
  | stored k h path slot found => exact .touch found rfl rfl
  | _ => exact .of_slots rfl

theorem advance_slot (hm : advance cfg s t o pc = some m) (w : WorkerId) :
    SlotChange pc s m.mem w := by
  cases advance_moves hm with
  | warm left stage move => exact warm_slot move
  | lease k timeout stage move => exact lease_slot move
  | call k h caller timeout stage move => exact call_slot move
  | release h save stage move => exact release_slot move
  | retire v ctx stage move => exact retire_slot move
  | reap v started stage move => exact reap_slot move
  | single outcome move => exact single_slot move

theorem dropTask_slot (hm : dropTask s t pc = some m) (w : WorkerId) :
    m.mem.stateOf w = s.stateOf w ∧ m.mem.sentOf w = s.sentOf w := by
  unfold dropTask at hm
  split at hm <;> cases hm
  all_goals first
    | exact ⟨rfl, rfl⟩
    | exact ⟨stateOf_unlockCall, sentOf_unlockCall⟩

/-! ### Every step -/

theorem step_advance_iff {x x' : World} : step cfg x (.advance t o) = some x' ↔
    ∃ pc m, x.tasks t = some pc ∧ advance cfg x.mem t o pc = some m ∧ x' = x.resume t m := by
  simp only [step, Option.map_eq_some_iff, Option.bind_eq_some_iff]
  constructor
  · rintro ⟨m, ⟨pc, hpc, hm⟩, rfl⟩
    exact ⟨pc, m, hpc, hm, rfl⟩
  · rintro ⟨pc, m, hpc, hm, rfl⟩
    exact ⟨m, ⟨pc, hpc, hm⟩, rfl⟩

theorem step_drop_iff {x x' : World} : step cfg x (.drop t) = some x' ↔
    ∃ pc m, x.tasks t = some pc ∧ dropTask x.mem t pc = some m ∧ x' = x.resume t m := by
  simp only [step, Option.map_eq_some_iff, Option.bind_eq_some_iff]
  constructor
  · rintro ⟨m, ⟨pc, hpc, hm⟩, rfl⟩
    exact ⟨pc, m, hpc, hm, rfl⟩
  · rintro ⟨pc, m, hpc, hm, rfl⟩
    exact ⟨m, ⟨pc, hpc, hm⟩, rfl⟩

/- The step of a task whose await is known. -/
theorem step_advance_at {x x' : World} (hp : x.tasks t = some pc)
    (h : step cfg x (.advance t o) = some x') :
    ∃ m, advance cfg x.mem t o pc = some m ∧ x' = x.resume t m := by
  obtain ⟨p, m, hp', hm, hx⟩ := step_advance_iff.mp h
  rw [hp] at hp'
  cases hp'
  exact ⟨m, hm, hx⟩

theorem step_drop_at {x x' : World} (hp : x.tasks t = some pc)
    (h : step cfg x (.drop t) = some x') :
    ∃ m, dropTask x.mem t pc = some m ∧ x' = x.resume t m := by
  obtain ⟨p, m, hp', hm, hx⟩ := step_drop_iff.mp h
  rw [hp] at hp'
  cases hp'
  exact ⟨m, hm, hx⟩

theorem start_mem {x x' : World} {k : SessionRef} (h : start x k pc = some x') :
    x' = x.spawn [pc] := by
  unfold start at h
  split at h
  · cases h
  · split at h <;> cases h
    rfl

/- Only a resumed task changes a slot. -/
theorem step_slot {x x' : World} {a : Act} (h : step cfg x a = some x') (w : WorkerId) :
    (x'.mem.stateOf w = x.mem.stateOf w ∧ x'.mem.sentOf w = x.mem.sentOf w) ∨
      ∃ t o pc, a = .advance t o ∧ x.tasks t = some pc ∧ SlotChange pc x.mem x'.mem w := by
  cases a with
  | newSession sessionId =>
    simp only [step] at h
    split at h <;> cases h
    exact .inl ⟨rfl, rfl⟩
  | openObserved k timeoutSecs | callTool k tool timeoutSecs | closeWithSave k save =>
    rw [start_mem h]
    exact .inl ⟨rfl, rfl⟩
  | dropSession k =>
    simp only [step] at h
    split at h
    · cases h
    · split at h <;> cases h
      exact .inl ⟨rfl, rfl⟩
  | shutdownAll =>
    simp only [step] at h
    split at h <;> cases h
    exact .inl ⟨rfl, rfl⟩
  | tick =>
    cases h
    exact .inl ⟨rfl, rfl⟩
  | advance t o =>
    obtain ⟨pc, m, hpc, hm, rfl⟩ := step_advance_iff.mp h
    exact .inr ⟨t, o, pc, rfl, hpc, advance_slot hm w⟩
  | drop t =>
    obtain ⟨pc, m, hpc, hm, rfl⟩ := step_drop_iff.mp h
    exact .inl (dropTask_slot hm w)

section Leased
variable {own : Own} {x x' : World} {a : Act} {sessionId : String}

theorem OrDead.leased_eq {y : ChildState} (h : OrDead s w y)
    (hw : s.stateOf w = some (.leased sessionId)) : y = .leased sessionId := by
  rcases h with h | h <;> rw [hw] at h <;> cases h
  rfl

/- A slot that is leased after a step was leased before, or is leased by it. -/
theorem leased_before (hI : Inv cfg own x) (h : step cfg x a = some x') (hk : Known x.mem w)
    (hw : x'.mem.stateOf w = some (.leased sessionId)) :
    x.mem.stateOf w = some (.leased sessionId) ∨
    ∃ t o k timeout rest active deadIds, a = .advance t o ∧
      x.tasks t = some (.lease k timeout (.scan (w :: rest) active deadIds)) ∧
      x.mem.stateOf w = some .idle ∧ x.mem.idOf k = some sessionId := by
  rcases step_slot h w with ⟨hst, -⟩ | ⟨t, o, pc, rfl, hpc, hc⟩
  · exact .inl (hst.symm.trans hw)
  · cases hc with
    | same state sent => exact .inl (state.symm.trans hw)
    | called k h caller timeout pc_eq worker before state => exact .inl (state.symm.trans hw)
    | builtLeased k timeout sessionId pc_eq id state =>
      subst pc_eq
      exact absurd (hI.good t _ hpc).2.2.1 hk.2
    | granted k timeout active rest deadIds sessionId pc_eq before id state sent =>
      subst pc_eq
      rw [state] at hw
      cases hw
      exact .inr ⟨t, o, k, timeout, rest, active, deadIds, rfl, hpc, before, id⟩
    | builtIdle _ state | closing _ _ _ _ _ state | recycled _ _ _ _ _ state _
    | retired _ _ state _ | reaped _ _ _ state _ =>
      rw [state] at hw
      cases hw

end Leased

end IdaHeadless.WorkerPool
