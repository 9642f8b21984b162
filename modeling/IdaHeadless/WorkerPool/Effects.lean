import IdaHeadless.WorkerPool.Assertions

/-!
# What a move may do to the shared memory

Every move of the pool is a composition of the writes of `State`. Each lemma
below takes one write, with what its task must know beforehand, and says that
the write keeps the global facts (`Global`) and what all other tasks rely on.
-/

namespace IdaHeadless.WorkerPool

/-- What holds of the memory between any two moves. -/
structure Global (cfg : Config) (own : Own) (s : Pool) : Prop where
  spawning_lt : ∀ w ∈ s.spawning, w < s.nextId
  slot_lt : ∀ w, s.stateOf w ≠ none → w < s.nextId
  own_lt : ∀ w, s.nextId ≤ w → own w = .nobody
  children_known : ∀ w ∈ s.children, Known s w
  children_nodup : s.children.Nodup
  cap : s.liveOrReserved ≤ cfg.maxWorkers
  handle_ok : ∀ k h, s.handleOf k = some h → own h.workerId = .session k ∧
    s.idOf k = some h.sessionId ∧ Known s h.workerId ∧ OrDead s h.workerId (.leased h.sessionId)
  idle_free : ∀ w, s.stateOf w = some .idle → w ∉ s.spawning → own w = .nobody
  session_lt : ∀ k, s.sessions k ≠ none → k < s.nextSession
  session_serving : ∀ k, s.sessions k ≠ none → s.serving = true

/-- The move of `t` from `s` to `s'` respects the others and keeps `Global`. -/
structure Keeps (cfg : Config) (t : TaskId) (own : Own) (s : Pool) (own' : Own) (s' : Pool) :
    Prop where
  rely : ∀ u, u ≠ t → Rely u own s own' s'
  ages : Ages s s'
  global : Global cfg own' s'

variable {cfg : Config} {own own' own'' : Own} {s s' s'' : Pool} {t : TaskId}

theorem Keeps.refl (hG : Global cfg own s) : Keeps cfg t own s own s :=
  ⟨fun u _ => Rely.refl u own s, Ages.refl s, hG⟩

theorem Keeps.trans (h₁ : Keeps cfg t own s own' s') (h₂ : Keeps cfg t own' s' own'' s'') :
    Keeps cfg t own s own'' s'' :=
  ⟨fun u hu => (h₁.rely u hu).trans (h₂.rely u hu), h₁.ages.trans h₂.ages, h₂.global⟩

/-! ### Reading after writing -/

section Readers
variable {w v : WorkerId} {k j : SessionRef} {slot : Slot} {se : Session}

theorem stateOf_setSlot : (s.setSlot w slot).stateOf v =
    if v = w then some slot.state else s.stateOf v := by
  unfold Pool.setSlot Pool.stateOf
  by_cases h : v = w <;> simp [h]

theorem callLockOf_setSlot : (s.setSlot w slot).callLockOf v =
    if v = w then slot.callLock else s.callLockOf v := by
  unfold Pool.setSlot Pool.callLockOf
  by_cases h : v = w <;> simp [h]

theorem idOf_setSession : (s.setSession k se).idOf j =
    if j = k then some se.sessionId else s.idOf j := by
  unfold Pool.setSession Pool.idOf
  by_cases h : j = k <;> simp [h]

theorem handleOf_setSession : (s.setSession k se).handleOf j =
    if j = k then se.handle else s.handleOf j := by
  unfold Pool.setSession Pool.handleOf
  by_cases h : j = k <;> simp [h]

theorem handleLockOf_setSession : (s.setSession k se).handleLockOf j =
    if j = k then se.handleLock else s.handleLockOf j := by
  unfold Pool.setSession Pool.handleLockOf
  by_cases h : j = k <;> simp [h]

theorem stateOf_eq (h : s.slots w = some slot) : s.stateOf w = some slot.state := by
  unfold Pool.stateOf
  rw [h]
  rfl

theorem callLockOf_eq (h : s.slots w = some slot) : s.callLockOf w = slot.callLock := by
  unfold Pool.callLockOf
  rw [h]
  rfl

theorem idOf_eq (h : s.sessions k = some se) : s.idOf k = some se.sessionId := by
  unfold Pool.idOf
  rw [h]
  rfl

theorem handleOf_eq (h : s.sessions k = some se) : s.handleOf k = se.handle := by
  unfold Pool.handleOf
  rw [h]
  rfl

theorem handleLockOf_eq (h : s.sessions k = some se) : s.handleLockOf k = se.handleLock := by
  unfold Pool.handleLockOf
  rw [h]
  rfl

theorem Known.exists_slot (h : Known s w) : ∃ sl, s.slots w = some sl := by
  obtain ⟨hne, -⟩ := h
  unfold Pool.stateOf at hne
  cases hs : s.slots w with
  | none => simp [hs] at hne
  | some sl => exact ⟨sl, rfl⟩

theorem unlockCall_eq (h : s.slots w = some slot) :
    s.unlockCall w = s.setSlot w { slot with callLock := none } := by
  unfold Pool.unlockCall Pool.setSlot
  rw [h]
  rfl

theorem stateOf_unlockCall : (s.unlockCall w).stateOf v = s.stateOf v := by
  by_cases h : v = w
  · simp [Pool.unlockCall, Pool.stateOf, h, Function.comp_def]
  · simp [Pool.unlockCall, Pool.stateOf, h]

theorem unlockHandle_eq (h : s.sessions k = some se) :
    s.unlockHandle k = s.setSession k { se with handleLock := none } := by
  unfold Pool.unlockHandle Pool.setSession
  rw [h]
  rfl

end Readers

/-! ### Writes to a slot -/

section Slots
variable {w : WorkerId} {slot slot' : Slot}

/-- Slots that only die keep the capacity. -/
theorem liveOrReserved_le (hdead : ∀ w, s.stateOf w = some .dead → s'.stateOf w = some .dead)
    (hchildren : s'.children = s.children) (hspawning : s'.spawning = s.spawning) :
    s'.liveOrReserved ≤ s.liveOrReserved := by
  have hle : (s'.liveOf s'.children).length ≤ (s.liveOf s.children).length := by
    rw [hchildren]
    exact liveOf_length_le hdead s.children
  unfold Pool.liveOrReserved
  rw [hspawning]
  exact Nat.add_le_add_left hle _

/-- A write that leaves the state alone, and the call lock of others. -/
theorem touch_keeps (hG : Global cfg own s) (hs : s.slots w = some slot)
    (hstate : slot'.state = slot.state)
    (hlock : ∀ u, u ≠ t → slot.callLock = some u → slot'.callLock = some u) :
    Keeps cfg t own s own (s.setSlot w slot') := by
  have hsame : ∀ v, (s.setSlot w slot').stateOf v = s.stateOf v := by
    intro v
    rw [stateOf_setSlot]
    split
    · rename_i h
      rw [h, stateOf_eq hs, hstate]
    · rfl
  have hdead : ∀ v, s.stateOf v = some .dead → (s.setSlot w slot').stateOf v = some .dead := by
    intro v hv
    rw [hsame]
    exact hv
  have hknown : ∀ v, Known s v → Known (s.setSlot w slot') v := by
    intro v hv
    exact ⟨by rw [hsame]; exact hv.1, hv.2⟩
  have hor : ∀ v x, OrDead s v x → OrDead (s.setSlot w slot') v x := by
    intro v x hx
    unfold OrDead
    rw [hsame]
    exact hx
  have hages : Ages s (s.setSlot w slot') :=
    { Ages.refl s with known := hknown, dead := hdead }
  refine ⟨fun u hu => { hages, Rely.refl u own s with
    reserved := fun v _ hv => ⟨hv, hsame v⟩
    state := fun v x _ _ hx => hor v x hx
    callLock := ?_ }, hages, { hG with
    slot_lt := fun v hv => hG.slot_lt v (by rw [← hsame]; exact hv)
    children_known := fun v hv => hknown v (hG.children_known v hv)
    cap := (liveOrReserved_le hdead rfl rfl).trans hG.cap
    handle_ok := ?_
    idle_free := fun v hv => hG.idle_free v (by rw [← hsame]; exact hv) }⟩
  · intro v hv
    rw [callLockOf_setSlot]
    split
    · rename_i h
      rw [h, callLockOf_eq hs] at hv
      exact hlock u hu hv
    · exact hv
  · intro k h hh
    obtain ⟨ho, hid, hk, hd⟩ := hG.handle_ok k h hh
    exact ⟨ho, hid, hknown _ hk, hor _ _ hd⟩

/-- `take_dead_worker_locked`. -/
theorem kill_keeps (hG : Global cfg own s) (hs : s.slots w = some slot) (hw : w ∉ s.spawning) :
    Keeps cfg t own s own (s.setSlot w slot.kill) := by
  have hst : ∀ v, (s.setSlot w slot.kill).stateOf v =
      if v = w then some .dead else s.stateOf v := fun v => stateOf_setSlot
  have hdead : ∀ v, s.stateOf v = some .dead → (s.setSlot w slot.kill).stateOf v = some .dead := by
    intro v hv
    rw [hst]
    split <;> simp_all
  have hknown : ∀ v, Known s v → Known (s.setSlot w slot.kill) v := by
    intro v hv
    refine ⟨?_, hv.2⟩
    rw [hst]
    split
    · simp
    · exact hv.1
  have hor : ∀ v x, OrDead s v x → OrDead (s.setSlot w slot.kill) v x := by
    intro v x hx
    unfold OrDead
    rw [hst]
    split
    · exact .inr rfl
    · exact hx
  have hages : Ages s (s.setSlot w slot.kill) :=
    { Ages.refl s with known := hknown, dead := hdead }
  refine ⟨fun u hu => { hages, Rely.refl u own s with
    reserved := ?_
    state := fun v x _ _ hx => hor v x hx
    callLock := ?_ }, hages, { hG with
    slot_lt := ?_
    children_known := fun v hv => hknown v (hG.children_known v hv)
    cap := (liveOrReserved_le hdead rfl rfl).trans hG.cap
    handle_ok := ?_
    idle_free := ?_ }⟩
  · intro v _ hv
    have hne : v ≠ w := fun h => hw (h ▸ hv)
    exact ⟨hv, by rw [hst, if_neg hne]⟩
  · intro v hv
    rw [callLockOf_setSlot]
    split
    · rename_i h
      rw [h, callLockOf_eq hs] at hv
      exact hv
    · exact hv
  · intro v hv
    refine hG.slot_lt v fun hn => hv ?_
    rw [hst, if_neg]
    · exact hn
    · intro h
      rw [h, stateOf_eq hs] at hn
      cases hn
  · intro k h hh
    obtain ⟨ho, hid, hk, hd⟩ := hG.handle_ok k h hh
    exact ⟨ho, hid, hknown _ hk, hor _ _ hd⟩
  · intro v hv
    rw [hst] at hv
    split at hv
    · cases hv
    · exact hG.idle_free v hv

/-- A slot changes its state, with its owner: an idle slot that nobody owns, or
the slot of a task that owns it and holds its call lock. -/
theorem owned_keeps {o : Owner} (slot' : Slot) (hG : Global cfg own s) (hs : s.slots w = some slot)
    (hw : w ∉ s.spawning) (hlive : slot.state ≠ .dead) (hlock : slot'.callLock = slot.callLock)
    (hidle : slot'.state = .idle → o = .nobody)
    (hown : (own w = .nobody ∧ slot.state = .idle) ∨
      (own w = .task t ∧ slot.callLock = some t)) :
    Keeps cfg t own s (Function.update own w o) (s.setSlot w slot') := by
  have hst : ∀ v, (s.setSlot w slot').stateOf v =
      if v = w then some slot'.state else s.stateOf v := fun v => stateOf_setSlot
  have hdead : ∀ v, s.stateOf v = some .dead → (s.setSlot w slot').stateOf v = some .dead := by
    intro v hv
    rw [hst, if_neg]
    · exact hv
    · intro h
      rw [h, stateOf_eq hs] at hv
      exact hlive (Option.some.inj hv)
  have hknown : ∀ v, Known s v → Known (s.setSlot w slot') v := by
    intro v hv
    refine ⟨?_, hv.2⟩
    rw [hst]
    split
    · simp
    · exact hv.1
  have hor : ∀ v x, v ≠ w → OrDead s v x → OrDead (s.setSlot w slot') v x := by
    intro v x hne hx
    unfold OrDead
    rw [hst, if_neg hne]
    exact hx
  have hother : ∀ u, u ≠ t → own w ≠ .task u := by
    intro u hu ho
    rcases hown with ⟨h, -⟩ | ⟨h, -⟩ <;> rw [h] at ho <;> cases ho
    exact hu rfl
  have hages : Ages s (s.setSlot w slot') :=
    { Ages.refl s with known := hknown, dead := hdead }
  refine ⟨fun u hu => { hages, Rely.refl u own s with
    owner := ?_
    reserved := ?_
    state := ?_
    callLock := ?_ }, hages, { hG with
    slot_lt := ?_
    own_lt := ?_
    children_known := fun v hv => hknown v (hG.children_known v hv)
    cap := (liveOrReserved_le hdead rfl rfl).trans hG.cap
    handle_ok := ?_
    idle_free := ?_ }⟩
  · intro v hv
    have hne : v ≠ w := fun h => hother u hu (h ▸ hv)
    rw [Function.update_of_ne hne]
    exact hv
  · intro v _ hv
    have hne : v ≠ w := fun h => hw (h ▸ hv)
    exact ⟨hv, by rw [hst, if_neg hne]⟩
  · intro v hv
    rw [callLockOf_setSlot]
    split
    · rename_i h
      rw [h, callLockOf_eq hs] at hv
      rw [hlock]
      exact hv
    · exact hv
  · intro v x hx hv hd
    by_cases hne : v = w
    · subst hne
      rcases hown with ⟨-, hi⟩ | ⟨-, hl⟩
      · -- the state was idle, so `x` was
        rw [OrDead, stateOf_eq hs, hi] at hd
        simp only [Option.some.injEq, reduceCtorEq, or_false] at hd
        exact absurd hd.symm hx
      · rcases hv with ho | hc
        · exact absurd ho (hother u hu)
        · rw [callLockOf_eq hs, hl] at hc
          exact absurd (Option.some.inj hc).symm hu
    · exact hor v x hne hd
  · intro v hv
    refine hG.slot_lt v fun hn => hv ?_
    rw [hst, if_neg]
    · exact hn
    · intro h
      rw [h, stateOf_eq hs] at hn
      cases hn
  · intro v hv
    have hlt := hG.slot_lt w (by rw [stateOf_eq hs]; simp)
    rw [Function.update_of_ne (Nat.ne_of_gt (Nat.lt_of_lt_of_le hlt hv))]
    exact hG.own_lt v hv
  · intro k h hh
    obtain ⟨ho, hid, hk, hd⟩ := hG.handle_ok k h hh
    have hne : h.workerId ≠ w := by
      intro he
      rw [he] at ho
      rcases hown with ⟨hn, -⟩ | ⟨hn, -⟩ <;> rw [hn] at ho <;> cases ho
    exact ⟨by rw [Function.update_of_ne hne]; exact ho, hid, hknown _ hk, hor _ _ hne hd⟩
  · intro v hv hsp
    rw [hst] at hv
    split at hv
    · rename_i h
      rw [h, Function.update_self]
      exact hidle (Option.some.inj hv)
    · rename_i h
      rw [Function.update_of_ne h]
      exact hG.idle_free v hv hsp

end Slots

/-! ### Writes to a session -/

section Sessions
variable {k : SessionRef} {se se' : Session}

/-- A write to session `k` that keeps its id and the handle of a session another
task has locked. The owner of the slots `ws` may change hands with the handle. -/
theorem session_keeps (hG : Global cfg own s) (hs : s.sessions k = some se)
    (hid : se'.sessionId = se.sessionId)
    (hlock : ∀ u, u ≠ t → se.handleLock = some u → se.handle = none →
      se'.handleLock = some u ∧ se'.handle = none)
    (howner : ∀ u, u ≠ t → ∀ w, own w = .task u → own' w = .task u)
    (hfresh : ∀ w, own w = .nobody → own' w = .nobody)
    (hothers : ∀ j h, j ≠ k → s.handleOf j = some h → own' h.workerId = own h.workerId)
    (hhandle : ∀ h, se'.handle = some h → own' h.workerId = .session k ∧
      se.sessionId = h.sessionId ∧ Known s h.workerId ∧
      OrDead s h.workerId (.leased h.sessionId)) :
    Keeps cfg t own s own' (s.setSession k se') := by
  have hidOf : ∀ j x, s.idOf j = some x → (s.setSession k se').idOf j = some x := by
    intro j x hj
    rw [idOf_setSession]
    split
    · rename_i h
      rw [h, idOf_eq hs] at hj
      rw [hid]
      exact hj
    · exact hj
  have hexists : ∀ j, (s.setSession k se').sessions j ≠ none → s.sessions j ≠ none := by
    intro j hj hn
    have hne : j ≠ k := by
      intro h
      rw [h, hs] at hn
      cases hn
    refine hj ?_
    unfold Pool.setSession
    exact (Function.update_of_ne hne _ _).trans hn
  have hages : Ages s (s.setSession k se') :=
    { Ages.refl s with id := hidOf }
  refine ⟨fun u hu => { hages, Rely.refl u own s with
    owner := howner u hu
    reserved := fun v _ hv => ⟨hv, rfl⟩
    handle := ?_ }, hages, { hG with
    own_lt := fun v hv => hfresh v (hG.own_lt v hv)
    handle_ok := ?_
    idle_free := fun v hv hsp => hfresh v (hG.idle_free v hv hsp)
    session_lt := fun j hj => hG.session_lt j (hexists j hj)
    session_serving := fun j hj => hG.session_serving j (hexists j hj) }⟩
  · intro j hj
    unfold HoldsHandle
    rw [handleLockOf_setSession, handleOf_setSession]
    split
    · rename_i h
      subst h
      rw [HoldsHandle, handleLockOf_eq hs, handleOf_eq hs] at hj
      exact hlock u hu hj.1 hj.2
    · exact hj
  · intro j h hj
    rw [handleOf_setSession] at hj
    split at hj
    · rename_i he
      subst he
      obtain ⟨ho, hsid, hk, hd⟩ := hhandle h hj
      exact ⟨ho, hidOf j _ (by rw [idOf_eq hs, hsid]), hk, hd⟩
    · rename_i hne
      obtain ⟨ho, hsid, hk, hd⟩ := hG.handle_ok j h hj
      exact ⟨(hothers j h hne hj).trans ho, hidOf j _ hsid, hk, hd⟩

/-- Lock or unlock the handle, or forget it: no slot changes hands. -/
theorem clear_keeps (hG : Global cfg own s) (hs : s.sessions k = some se)
    (hid : se'.sessionId = se.sessionId)
    (hlock : ∀ u, u ≠ t → se.handleLock = some u → se'.handleLock = some u)
    (hhandle : se'.handle = se.handle ∨ se'.handle = none) :
    Keeps cfg t own s own (s.setSession k se') := by
  refine session_keeps hG hs hid ?_ (fun _ _ _ h => h) (fun _ h => h) (fun _ _ _ _ => rfl) ?_
  · intro u hu hl hn
    refine ⟨hlock u hu hl, ?_⟩
    rcases hhandle with h | h <;> simp [h, hn]
  · intro h hh
    have hold : s.handleOf k = some h := by
      rw [handleOf_eq hs]
      rcases hhandle with he | he <;> rw [he] at hh
      · exact hh
      · cases hh
    obtain ⟨ho, hsid, hk, hd⟩ := hG.handle_ok k h hold
    rw [idOf_eq hs] at hsid
    exact ⟨ho, Option.some.inj hsid, hk, hd⟩

/-- `take_handle`: the slot passes from the session to the task. -/
theorem take_keeps {h : Handle} (hG : Global cfg own s) (hs : s.sessions k = some se)
    (hh : se.handle = some h) :
    Keeps cfg t own s (Function.update own h.workerId (.task t))
      (s.setSession k { se with handle := none }) := by
  have hk := hG.handle_ok k h (by rw [handleOf_eq hs]; exact hh)
  refine session_keeps hG hs rfl ?_ ?_ ?_ ?_ (by simp)
  · intro u hu hl hn
    exact ⟨hl, rfl⟩
  · intro u hu w hw
    have hne : w ≠ h.workerId := by
      intro he
      rw [he, hk.1] at hw
      cases hw
    rw [Function.update_of_ne hne]
    exact hw
  · intro w hw
    have hne : w ≠ h.workerId := by
      intro he
      rw [he, hk.1] at hw
      cases hw
    rw [Function.update_of_ne hne]
    exact hw
  · intro j h' hne hj
    have hw : h'.workerId ≠ h.workerId := by
      intro he
      have ho := (hG.handle_ok j h' hj).1
      rw [he, hk.1] at ho
      exact hne (Owner.session.inj ho).symm
    exact Function.update_of_ne hw _ _

/-- `*guard = Some(handle)`: the slot passes from the task to the session. -/
theorem store_keeps {w : WorkerId} (hG : Global cfg own s) (hs : s.sessions k = some se)
    (hlock : se.handleLock = some t) (ho : own w = .task t) (hw : Known s w)
    (hst : OrDead s w (.leased se.sessionId)) :
    Keeps cfg t own s (Function.update own w (.session k))
      (s.setSession k { se with handle := some ⟨se.sessionId, w⟩, handleLock := none }) := by
  refine session_keeps hG hs rfl ?_ ?_ ?_ ?_ ?_
  · intro u hu hl
    rw [hlock] at hl
    exact absurd (Option.some.inj hl).symm hu
  · intro u hu v hv
    have hne : v ≠ w := by
      intro he
      rw [he, ho] at hv
      exact hu (Owner.task.inj hv).symm
    rw [Function.update_of_ne hne]
    exact hv
  · intro v hv
    have hne : v ≠ w := by
      intro he
      rw [he, ho] at hv
      cases hv
    rw [Function.update_of_ne hne]
    exact hv
  · intro j h hne hj
    have hne : h.workerId ≠ w := by
      intro he
      have hj' := (hG.handle_ok j h hj).1
      rw [he, ho] at hj'
      cases hj'
    exact Function.update_of_ne hne _ _
  · intro h hh
    cases hh
    exact ⟨Function.update_self .., rfl, hw, hst⟩

end Sessions

/-! ### Writes to the registry -/

section Registry
variable {w : WorkerId}

theorem lockInner_keeps (hG : Global cfg own s) (hi : s.inner = none) :
    Keeps cfg t own s own (s.lockInner t) := by
  have hages : Ages s (s.lockInner t) :=
    { Ages.refl s with }
  refine ⟨fun u hu => { hages, Rely.refl u own s with
    reserved := fun v _ hv => ⟨hv, rfl⟩
    inner := ?_ }, hages, { hG with }⟩
  intro h
  rw [hi] at h
  cases h

theorem unlockInner_keeps (hG : Global cfg own s) (hi : s.inner = some t) :
    Keeps cfg t own s own s.unlockInner := by
  have hages : Ages s s.unlockInner :=
    { Ages.refl s with }
  refine ⟨fun u hu => { hages, Rely.refl u own s with
    reserved := fun v _ hv => ⟨hv, rfl⟩
    inner := ?_ }, hages, { hG with }⟩
  intro h
  rw [hi] at h
  exact absurd (Option.some.inj h).symm hu

/-- The lock of `PoolInner` is free, or `t` has it. -/
def InnerFor (s : Pool) (t : TaskId) : Prop := s.inner = none ∨ s.inner = some t

theorem InnerFor.not_other {u : TaskId} (h : InnerFor s t) (hu : u ≠ t) : s.inner ≠ some u := by
  intro he
  rcases h with h | h <;> rw [h] at he <;> cases he
  exact hu rfl

theorem forget_keeps (ids : List WorkerId) (hG : Global cfg own s) (hi : InnerFor s t)
    (hserving : s.serving = true) :
    Keeps cfg t own s own (s.forget ids) := by
  have hages : Ages s (s.forget ids) :=
    { Ages.refl s with children := fun v hv => .inl (List.mem_of_mem_filter hv) }
  refine ⟨fun u hu => { hages, Rely.refl u own s with
    reserved := fun v _ hv => ⟨hv, rfl⟩
    inner := fun h => absurd h (hi.not_other hu)
    warm := fun _ h => by rw [hserving] at h; cases h }, hages, { hG with
    children_known := fun v hv => hG.children_known v (List.mem_of_mem_filter hv)
    children_nodup := hG.children_nodup.filter _
    cap := ?_ }⟩
  have hsub : ((s.forget ids).live).length ≤ s.live.length :=
    ((List.filter_sublist (l := s.children)).filter _).length_le
  have hcap := hG.cap
  unfold Pool.liveOrReserved at hcap ⊢
  have hsp : (s.forget ids).spawning = s.spawning := rfl
  rw [hsp]
  omega

/-- `reserve_spawn_slot_locked`, with a free place. -/
theorem reserve_keeps (hG : Global cfg own s) (hi : InnerFor s t)
    (hwarm : t = 0 ∨ s.serving = true) (hfree : s.liveOrReserved < cfg.maxWorkers) :
    Keeps cfg t own s (Function.update own s.nextId (.task t)) s.reserve := by
  have hnew : s.nextId ∉ s.spawning := fun h => Nat.lt_irrefl _ (hG.spawning_lt _ h)
  have hne : ∀ v, s.stateOf v ≠ none → v ≠ s.nextId := by
    intro v hv
    exact Nat.ne_of_lt (hG.slot_lt v hv)
  have hknown : ∀ v, Known s v → Known s.reserve v := by
    intro v hv
    refine ⟨hv.1, ?_⟩
    simp only [Pool.reserve, Finset.mem_insert, not_or]
    exact ⟨hne v hv.1, hv.2⟩
  have hspawning : ∀ v ∈ s.reserve.spawning, v ∈ s.spawning ∨ s.nextId ≤ v := by
    intro v hv
    rcases Finset.mem_insert.mp hv with h | h
    · exact .inr (Nat.le_of_eq h.symm)
    · exact .inl h
  have hages : Ages s s.reserve :=
    { Ages.refl s with
      next := Nat.le_succ _
      spawning := hspawning
      known := hknown }
  refine ⟨fun u hu => { hages, Rely.refl u own s with
    owner := ?_
    reserved := fun v _ hv => ⟨Finset.mem_insert_of_mem hv, rfl⟩
    inner := fun h => absurd h (hi.not_other hu)
    warm := ?_ }, hages, { hG with
    spawning_lt := ?_
    slot_lt := fun v hv => Nat.lt_succ_of_lt (hG.slot_lt v hv)
    own_lt := ?_
    children_known := fun v hv => hknown v (hG.children_known v hv)
    cap := ?_
    handle_ok := ?_
    idle_free := ?_ }⟩
  · intro v hv
    have hlt : v ≠ s.nextId := by
      intro he
      rw [he, hG.own_lt _ le_rfl] at hv
      cases hv
    rw [Function.update_of_ne hlt]
    exact hv
  · intro hu0 hs
    rcases hwarm with h | h
    · exact absurd (hu0.trans h.symm) hu
    · rw [h] at hs
      cases hs
  · intro v hv
    rcases Finset.mem_insert.mp hv with h | h
    · rw [h]
      exact Nat.lt_succ_self _
    · exact Nat.lt_succ_of_lt (hG.spawning_lt v h)
  · intro v hv
    have hlt : s.nextId < v := hv
    rw [Function.update_of_ne (Nat.ne_of_gt hlt)]
    exact hG.own_lt v hlt.le
  · have hcard : s.reserve.spawning.card = s.spawning.card + 1 :=
      Finset.card_insert_of_notMem hnew
    have hlive : s.reserve.live.length = s.live.length := rfl
    unfold Pool.liveOrReserved at hfree ⊢
    rw [hcard, hlive]
    omega
  · intro k h hh
    obtain ⟨ho, hid, hk, hd⟩ := hG.handle_ok k h hh
    exact ⟨by rw [Function.update_of_ne (hne _ hk.1)]; exact ho, hid, hknown _ hk, hd⟩
  · intro v hv hsp
    have hv' : s.stateOf v ≠ none := by
      intro h
      have hv'' : s.stateOf v = some .idle := hv
      rw [h] at hv''
      cases hv''
    rw [Function.update_of_ne (hne v hv')]
    exact hG.idle_free v hv fun h => hsp (Finset.mem_insert_of_mem h)

/-- The slot of a reservation is built. -/
theorem build_keeps (slot : Slot) (hG : Global cfg own s) (hres : Reserved own s t w none) :
    Keeps cfg t own s own (s.setSlot w slot) := by
  obtain ⟨hmem, ho, hnone⟩ := hres
  have hst : ∀ v, (s.setSlot w slot).stateOf v =
      if v = w then some slot.state else s.stateOf v := fun v => stateOf_setSlot
  have hsame : ∀ v, s.stateOf v ≠ none → (s.setSlot w slot).stateOf v = s.stateOf v := by
    intro v hv
    rw [hst, if_neg]
    intro he
    exact hv (he ▸ hnone)
  have hdead : ∀ v, s.stateOf v = some .dead → (s.setSlot w slot).stateOf v = some .dead := by
    intro v hv
    rw [hsame v (by rw [hv]; simp)]
    exact hv
  have hknown : ∀ v, Known s v → Known (s.setSlot w slot) v := by
    intro v hv
    exact ⟨by rw [hsame v hv.1]; exact hv.1, hv.2⟩
  have hor : ∀ v x, OrDead s v x → OrDead (s.setSlot w slot) v x := by
    intro v x hx
    unfold OrDead
    rw [hsame v (by rcases hx with h | h <;> rw [h] <;> simp)]
    exact hx
  have hages : Ages s (s.setSlot w slot) :=
    { Ages.refl s with known := hknown, dead := hdead }
  refine ⟨fun u hu => { hages, Rely.refl u own s with
    reserved := ?_
    callLock := ?_
    state := fun v x _ _ hx => hor v x hx }, hages, { hG with
    slot_lt := ?_
    children_known := fun v hv => hknown v (hG.children_known v hv)
    cap := (liveOrReserved_le hdead rfl rfl).trans hG.cap
    handle_ok := ?_
    idle_free := ?_ }⟩
  · intro v hv hsp
    refine ⟨hsp, ?_⟩
    rw [hst, if_neg]
    intro he
    rw [he, ho] at hv
    exact hu (Owner.task.inj hv).symm
  · intro v hv
    rw [callLockOf_setSlot]
    split
    · rename_i he
      have hn : s.slots w = none := by
        unfold Pool.stateOf at hnone
        exact Option.map_eq_none_iff.mp hnone
      rw [he, Pool.callLockOf, hn] at hv
      cases hv
    · exact hv
  · intro v hv
    rw [hst] at hv
    split at hv
    · rename_i he
      rw [he]
      exact hG.spawning_lt w hmem
    · exact hG.slot_lt v hv
  · intro k h hh
    obtain ⟨hk, hid, hkn, hd⟩ := hG.handle_ok k h hh
    exact ⟨hk, hid, hknown _ hkn, hor _ _ hd⟩
  · intro v hv hsp
    have hne : v ≠ w := fun he => hsp (he ▸ hmem)
    rw [hst, if_neg hne] at hv
    exact hG.idle_free v hv hsp

/-- `finish_spawn_reservation`. The slot is installed, or left to the task. -/
theorem finish_keeps {x : Option ChildState} {o : Owner} (install : Bool) (hG : Global cfg own s)
    (hres : Reserved own s t w x) (hi : s.inner = none) (hwarm : t = 0 ∨ s.serving = true)
    (hinstall : install = true → x ≠ none) (hidle : x = some .idle → o = .nobody) :
    Keeps cfg t own s (Function.update own w o) (s.finishReservation w install) := by
  obtain ⟨hmem, ho, hx⟩ := hres
  have hknown : ∀ v, Known s v → Known (s.finishReservation w install) v := fun v hv =>
    ⟨hv.1, fun h => hv.2 (Finset.mem_of_mem_erase h)⟩
  have hnew : w ∉ s.children := fun h => (hG.children_known w h).2 hmem
  have hinner : ∀ u, s.inner ≠ some u := by
    intro u h
    rw [hi] at h
    cases h
  have hchildren : ∀ v ∈ (s.finishReservation w install).children,
      v ∈ s.children ∨ v ∈ s.spawning ∨ s.nextId ≤ v := by
    intro v hv
    cases install with
    | false => exact .inl hv
    | true =>
      rcases List.mem_append.mp hv with h | h
      · exact .inl h
      · rw [List.mem_singleton.mp h]
        exact .inr (.inl hmem)
  have hages : Ages s (s.finishReservation w install) :=
    { Ages.refl s with
      spawning := fun v hv => .inl (Finset.mem_of_mem_erase hv)
      children := hchildren
      known := hknown }
  refine ⟨fun u hu => { hages, Rely.refl u own s with
    owner := ?_
    reserved := ?_
    inner := fun h => absurd h (hinner u)
    warm := ?_ }, hages, { hG with
    spawning_lt := fun v hv => hG.spawning_lt v (Finset.mem_of_mem_erase hv)
    own_lt := ?_
    children_known := ?_
    children_nodup := ?_
    cap := ?_
    handle_ok := ?_
    idle_free := ?_ }⟩
  · intro v hv
    have hne : v ≠ w := by
      intro he
      rw [he, ho] at hv
      exact hu (Owner.task.inj hv).symm
    rw [Function.update_of_ne hne]
    exact hv
  · intro v hv hsp
    have hne : v ≠ w := by
      intro he
      rw [he, ho] at hv
      exact hu (Owner.task.inj hv).symm
    exact ⟨Finset.mem_erase_of_ne_of_mem hne hsp, rfl⟩
  · intro hu0 hs
    rcases hwarm with h | h
    · exact absurd (hu0.trans h.symm) hu
    · rw [h] at hs
      cases hs
  · intro v hv
    have hne : v ≠ w := Nat.ne_of_gt (Nat.lt_of_lt_of_le (hG.spawning_lt w hmem) hv)
    rw [Function.update_of_ne hne]
    exact hG.own_lt v hv
  · intro v hv
    cases install with
    | false => exact hknown v (hG.children_known v hv)
    | true =>
      rcases List.mem_append.mp hv with h | h
      · exact hknown v (hG.children_known v h)
      · rw [List.mem_singleton.mp h]
        exact ⟨by rw [← hx] at hinstall; exact hinstall rfl, Finset.notMem_erase w s.spawning⟩
  · cases install with
    | false => exact hG.children_nodup
    | true => exact hG.children_nodup.append (List.nodup_singleton w) (by simpa using hnew)
  · have hcard : (s.finishReservation w install).spawning.card + 1 = s.spawning.card :=
      Finset.card_erase_add_one hmem
    have hlive : (s.finishReservation w install).live.length ≤ s.live.length + 1 := by
      cases install with
      | false => exact Nat.le_succ _
      | true =>
        have happ : (s.finishReservation w true).live = s.live ++ s.liveOf [w] :=
          List.filter_append ..
        rw [happ, List.length_append]
        exact Nat.add_le_add_left (List.length_filter_le _ _) _
    have hcap := hG.cap
    unfold Pool.liveOrReserved at hcap ⊢
    omega
  · intro k h hh
    obtain ⟨hk, hid, hkn, hd⟩ := hG.handle_ok k h hh
    have hne : h.workerId ≠ w := fun he => hkn.2 (he ▸ hmem)
    exact ⟨by rw [Function.update_of_ne hne]; exact hk, hid, hknown _ hkn, hd⟩
  · intro v hv hsp
    by_cases hne : v = w
    · subst hne
      rw [Function.update_self]
      exact hidle (hx.symm.trans hv)
    · rw [Function.update_of_ne hne]
      exact hG.idle_free v hv fun h => hsp (Finset.mem_erase_of_ne_of_mem hne h)

/-- A dropped `SpawnReservation` leaves its id to the task it spawns. -/
theorem transfer_keeps {v : TaskId} {x : Option ChildState} (hG : Global cfg own s)
    (hres : Reserved own s t w x) : Keeps cfg t own s (Function.update own w (.task v)) s := by
  obtain ⟨hmem, ho, -⟩ := hres
  refine ⟨fun u hu => { Rely.refl u own s with owner := ?_ }, Ages.refl s, { hG with
    own_lt := ?_
    handle_ok := ?_
    idle_free := ?_ }⟩
  · intro v hv
    have hne : v ≠ w := by
      intro he
      rw [he, ho] at hv
      exact hu (Owner.task.inj hv).symm
    rw [Function.update_of_ne hne]
    exact hv
  · intro v hv
    have hne : v ≠ w := Nat.ne_of_gt (Nat.lt_of_lt_of_le (hG.spawning_lt w hmem) hv)
    rw [Function.update_of_ne hne]
    exact hG.own_lt v hv
  · intro k h hh
    obtain ⟨hk, hid, hkn, hd⟩ := hG.handle_ok k h hh
    have hne : h.workerId ≠ w := fun he => hkn.2 (he ▸ hmem)
    exact ⟨by rw [Function.update_of_ne hne]; exact hk, hid, hkn, hd⟩
  · intro v hv hsp
    have hne : v ≠ w := fun he => hsp (he ▸ hmem)
    rw [Function.update_of_ne hne]
    exact hG.idle_free v hv hsp

/-- `warm_min` returned `Ok`. -/
theorem serve_keeps (hG : Global cfg own s) (ht : t = 0) :
    Keeps cfg t own s own { s with serving := true } := by
  have hages : Ages s { s with serving := true } :=
    { Ages.refl s with serving := fun _ => rfl }
  refine ⟨fun u hu => { hages, Rely.refl u own s with
    reserved := fun v _ hv => ⟨hv, rfl⟩
    warm := fun h => absurd (h.trans ht.symm) hu }, hages, { hG with
    session_serving := fun _ _ => rfl }⟩

end Registry

end IdaHeadless.WorkerPool
