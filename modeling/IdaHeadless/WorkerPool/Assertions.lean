import IdaHeadless.WorkerPool.Step

/-!
# What each task of the pool may assume

A lease is one right that changes hands: an idle slot has no owner, then a
session's handle owns it, then the release that took the handle. A reserved id
is owned by the task that reserved it. `Owner` is this right, as ghost state;
`Good` is what a task knows at each of its awaits, `Rely` what the other tasks
leave alone for it.
-/

namespace IdaHeadless.WorkerPool

inductive Owner where
  | nobody
  | session (k : SessionRef)
  | task (t : TaskId)

abbrev Own := WorkerId → Owner

/-- The slot of `w` is built and no longer reserved: others may refer to it. -/
def Known (s : Pool) (w : WorkerId) : Prop := s.stateOf w ≠ none ∧ w ∉ s.spawning

/-- Task `t` owns the reservation `id`; `x` is the state of its slot, if built. -/
def Reserved (own : Own) (s : Pool) (t : TaskId) (id : WorkerId) (x : Option ChildState) : Prop :=
  id ∈ s.spawning ∧ own id = .task t ∧ s.stateOf id = x

/-- Slot `w` is in state `x`, unless it was killed meanwhile. -/
def OrDead (s : Pool) (w : WorkerId) (x : ChildState) : Prop :=
  s.stateOf w = some x ∨ s.stateOf w = some .dead

/-- Slot `w` is dead and out of the children, for good. -/
def Retired (s : Pool) (w : WorkerId) : Prop :=
  s.stateOf w = some .dead ∧ w < s.nextId ∧ w ∉ s.spawning ∧ w ∉ s.children

/-- Task `t` holds the handle lock of session `k`, which has no handle. -/
def HoldsHandle (s : Pool) (t : TaskId) (k : SessionRef) : Prop :=
  s.handleLockOf k = some t ∧ s.handleOf k = none

/-- The part of `l` whose slots are not `Dead`. -/
def Pool.liveOf (s : Pool) (l : List WorkerId) : List WorkerId :=
  l.filter fun w => s.stateOf w ≠ some .dead

/-! ### The assertions -/

def GoodWarm (own : Own) (s : Pool) (t : TaskId) : WarmStage → Prop
  | .reserve => True
  | .spawn id => Reserved own s t id none
  | .install id none => Reserved own s t id (some .idle)
  | .install id (some _) => Reserved own s t id none

def GoodLease (own : Own) (s : Pool) (t : TaskId) (k : SessionRef) : LeaseStage → Prop
  | .handle => True
  | .inner => HoldsHandle s t k
  | .scan rest active deadIds => HoldsHandle s t k ∧ s.inner = some t ∧
      (∀ w ∈ deadIds, s.stateOf w = some .dead) ∧
      ∃ seen, s.children = seen ++ rest ∧ s.spawning.card + (s.liveOf seen).length ≤ active
  | .spawn id => HoldsHandle s t k ∧ Reserved own s t id none
  | .install id none => HoldsHandle s t k ∧
      ∃ sessionId, s.idOf k = some sessionId ∧ Reserved own s t id (some (.leased sessionId))
  | .install id (some err) => HoldsHandle s t k ∧ Reserved own s t id none ∧
      ∃ text, err = .remoteProtocol text

def GoodCall (s : Pool) (t : TaskId) (h : Handle) : CallStage → Prop
  | .lock => True
  | .child => s.callLockOf h.workerId = some t
  | .await => s.callLockOf h.workerId = some t ∧ OrDead s h.workerId (.leased h.sessionId)

def GoodRelease (own : Own) (s : Pool) (t : TaskId) (h : Handle) : ReleaseStage → Prop
  | .lock => own h.workerId = .task t ∧ OrDead s h.workerId (.leased h.sessionId)
  | .child => own h.workerId = .task t ∧ s.callLockOf h.workerId = some t ∧
      OrDead s h.workerId (.leased h.sessionId)
  | .close | .final => own h.workerId = .task t ∧ s.callLockOf h.workerId = some t ∧
      OrDead s h.workerId .closing
  | .idleCheck .recycled => True
  | .idleCheck .foundDead => s.stateOf h.workerId = some .dead
  | .idleCheck (.retired _) => Retired s h.workerId

def GoodRetireCtx (own : Own) (s : Pool) (t : TaskId) (w : WorkerId) : RetireCtx → Prop
  | .call k sessionId _ _ => s.callLockOf w = some t ∧ OrDead s w (.leased sessionId) ∧
      s.idOf k = some sessionId
  | .dispatch k sessionId _ => s.idOf k = some sessionId
  | .release _ _ _ => own w = .task t ∧ s.callLockOf w = some t ∧ OrDead s w .closing
  | _ => True

def GoodRetire (own : Own) (s : Pool) (t : TaskId) (w : WorkerId) : RetireStage → Prop
  | .take => True
  | .forget _ => s.stateOf w = some .dead
  | .finish | .check => Retired s w
  | .spawn id => Retired s w ∧ Reserved own s t id none
  | .install id none => Retired s w ∧ Reserved own s t id (some .idle)
  | .install id (some _) => Retired s w ∧ Reserved own s t id none

def GoodReap (s : Pool) (t : TaskId) (w : WorkerId) : ReapStage → Prop
  | .spawned | .sleep | .inner => True
  | .count rest _ => s.inner = some t ∧ ∃ seen, s.children = seen ++ rest
  | .take => s.inner = some t
  | .forget | .finish => s.stateOf w = some .dead

/- What a release leaves behind. An abandoned one still owns its slot, and the slot
is not idle. -/
def GoodExit (own : Own) (s : Pool) (t : TaskId) : Exit → Prop
  | .ok | .err _ | .released _ .recycled => True
  | .released w .foundDead => s.stateOf w = some .dead
  | .released w (.retired _) => Retired s w
  | .abandoned w => own w = .task t ∧ ∃ x, x ≠ .idle ∧ OrDead s w x

/-- What task `t` knows while it waits at `pc`. -/
def Good (cfg : Config) (own : Own) (s : Pool) (t : TaskId) : Pc → Prop
  | .done exit => GoodExit own s t exit
  | .warm left stage => t = 0 ∧ s.serving = false ∧
      s.spawning.card + s.children.length + left ≤ cfg.min ∧ GoodWarm own s t stage
  | .lease k _ stage => s.serving = true ∧ GoodLease own s t k stage
  | .call k h _ _ stage => s.serving = true ∧ Known s h.workerId ∧ GoodCall s t h stage ∧
      s.idOf k = some h.sessionId
  | .dispatchHandle .. | .takeHandle .. => s.serving = true
  | .dispatchClear k h _ _ => s.serving = true ∧ Known s h.workerId ∧ s.idOf k = some h.sessionId
  | .openStore _ h _ => s.serving = true ∧ Known s h.workerId
  | .release h _ stage => s.serving = true ∧ Known s h.workerId ∧ GoodRelease own s t h stage
  | .retire w ctx stage => s.serving = true ∧ Known s w ∧ GoodRetireCtx own s t w ctx ∧
      GoodRetire own s t w stage
  | .reap w _ stage => s.serving = true ∧ Known s w ∧ GoodReap s t w stage
  | .unreserve id false => s.serving = true ∧ Reserved own s t id none
  | .unreserve id true => s.serving = true ∧ ∃ x, Reserved own s t id (some x)

/-- What only grows: new ids come from `nextId` on, an id moves from `spawning` to
`children` and not back, a dead slot stays dead, a slot that others know stays. -/
structure Ages (s s' : Pool) : Prop where
  next : s.nextId ≤ s'.nextId
  spawning : ∀ w ∈ s'.spawning, w ∈ s.spawning ∨ s.nextId ≤ w
  children : ∀ w ∈ s'.children, w ∈ s.children ∨ w ∈ s.spawning ∨ s.nextId ≤ w
  known : ∀ w, Known s w → Known s' w
  dead : ∀ w, s.stateOf w = some .dead → s'.stateOf w = some .dead
  id : ∀ k x, s.idOf k = some x → s'.idOf k = some x
  serving : s.serving = true → s'.serving = true

/-- What the moves of others leave alone for task `u`. -/
structure Rely (u : TaskId) (own : Own) (s : Pool) (own' : Own) (s' : Pool) : Prop
    extends Ages s s' where
  owner : ∀ w, own w = .task u → own' w = .task u
  reserved : ∀ w, own w = .task u → w ∈ s.spawning →
    w ∈ s'.spawning ∧ s'.stateOf w = s.stateOf w
  callLock : ∀ w, s.callLockOf w = some u → s'.callLockOf w = some u
  state : ∀ w x, x ≠ .idle → own w = .task u ∨ s.callLockOf w = some u →
    OrDead s w x → OrDead s' w x
  handle : ∀ k, HoldsHandle s u k → HoldsHandle s' u k
  inner : s.inner = some u → s'.inner = some u ∧ s'.children = s.children ∧ s'.spawning = s.spawning
  warm : u = 0 → s.serving = false →
    s'.serving = false ∧ s'.children = s.children ∧ s'.spawning = s.spawning

variable {cfg : Config} {own own' own'' : Own} {s s' s'' : Pool} {u t : TaskId}

theorem Ages.refl (s : Pool) : Ages s s where
  next := le_rfl
  spawning _ h := .inl h
  children _ h := .inl h
  known _ h := h
  dead _ h := h
  id _ _ h := h
  serving h := h

theorem Ages.trans (h₁ : Ages s s') (h₂ : Ages s' s'') : Ages s s'' where
  next := h₁.next.trans h₂.next
  spawning w hw := by
    rcases h₂.spawning w hw with h | h
    · exact h₁.spawning w h
    · exact .inr (h₁.next.trans h)
  children w hw := by
    rcases h₂.children w hw with h | h | h
    · exact h₁.children w h
    · exact .inr (h₁.spawning w h)
    · exact .inr (.inr (h₁.next.trans h))
  known w h := h₂.known w (h₁.known w h)
  dead w hw := h₂.dead w (h₁.dead w hw)
  id k x h := h₂.id k x (h₁.id k x h)
  serving h := h₂.serving (h₁.serving h)

theorem Rely.refl (u : TaskId) (own : Own) (s : Pool) : Rely u own s own s where
  toAges := Ages.refl s
  owner _ h := h
  reserved _ _ h := ⟨h, rfl⟩
  callLock _ h := h
  state _ _ _ _ h := h
  handle _ h := h
  inner h := ⟨h, rfl, rfl⟩
  warm _ h := ⟨h, rfl, rfl⟩

theorem Rely.trans (h₁ : Rely u own s own' s') (h₂ : Rely u own' s' own'' s'') :
    Rely u own s own'' s'' where
  toAges := h₁.toAges.trans h₂.toAges
  owner w h := h₂.owner w (h₁.owner w h)
  reserved w h hw := by
    obtain ⟨hw', he⟩ := h₁.reserved w h hw
    obtain ⟨hw'', he'⟩ := h₂.reserved w (h₁.owner w h) hw'
    exact ⟨hw'', he'.trans he⟩
  callLock w h := h₂.callLock w (h₁.callLock w h)
  state w x hne h hx :=
    h₂.state w x hne (h.imp (h₁.owner w) (h₁.callLock w)) (h₁.state w x hne h hx)
  handle k h := h₂.handle k (h₁.handle k h)
  inner h := by
    obtain ⟨hi, hc, hs⟩ := h₁.inner h
    obtain ⟨hi', hc', hs'⟩ := h₂.inner hi
    exact ⟨hi', hc'.trans hc, hs'.trans hs⟩
  warm hu h := by
    obtain ⟨hi, hc, hs⟩ := h₁.warm hu h
    obtain ⟨hi', hc', hs'⟩ := h₂.warm hu hi
    exact ⟨hi', hc'.trans hc, hs'.trans hs⟩

/-! ### The assertions are stable -/

theorem Reserved.stable {id : WorkerId} {x : Option ChildState} (h : Reserved own s u id x)
    (hr : Rely u own s own' s') : Reserved own' s' u id x := by
  obtain ⟨hmem, hown, hx⟩ := h
  obtain ⟨hmem', heq⟩ := hr.reserved id hown hmem
  exact ⟨hmem', hr.owner id hown, heq.trans hx⟩

theorem Retired.stable {w : WorkerId} (h : Retired s w) (ha : Ages s s') : Retired s' w := by
  obtain ⟨hd, hlt, hsp, hch⟩ := h
  refine ⟨ha.dead w hd, Nat.lt_of_lt_of_le hlt ha.next, fun hw => ?_, fun hw => ?_⟩
  · rcases ha.spawning w hw with h | h
    · exact hsp h
    · exact absurd hlt (Nat.not_lt.mpr h)
  · rcases ha.children w hw with h | h | h
    · exact hch h
    · exact hsp h
    · exact absurd hlt (Nat.not_lt.mpr h)

/-- Slots only die, so a list never has more live slots than before. -/
theorem liveOf_length_le (hdead : ∀ w, s.stateOf w = some .dead → s'.stateOf w = some .dead)
    (l : List WorkerId) : (s'.liveOf l).length ≤ (s.liveOf l).length := by
  refine (List.monotone_filter_right l ?_).length_le
  intro w hw
  simp only [decide_not, Bool.not_eq_true', decide_eq_false_iff_not] at hw ⊢
  exact fun h => hw (hdead w h)

theorem GoodLease.stable {k : SessionRef} {stage : LeaseStage} (h : GoodLease own s u k stage)
    (hr : Rely u own s own' s') : GoodLease own' s' u k stage := by
  cases stage with
  | handle => trivial
  | inner => exact hr.handle k h
  | scan rest active deadIds =>
    obtain ⟨hh, hi, hd, seen, hc, hle⟩ := h
    obtain ⟨hi', hc', hs'⟩ := hr.inner hi
    refine ⟨hr.handle k hh, hi', fun w hw => hr.dead w (hd w hw), seen, hc'.trans hc, ?_⟩
    have := liveOf_length_le hr.dead seen
    rw [hs']
    omega
  | spawn id => exact ⟨hr.handle k h.1, h.2.stable hr⟩
  | install id failed =>
    cases failed with
    | none =>
      obtain ⟨hh, sessionId, hid, hres⟩ := h
      exact ⟨hr.handle k hh, sessionId, hr.id k _ hid, hres.stable hr⟩
    | some err => exact ⟨hr.handle k h.1, h.2.1.stable hr, h.2.2⟩

theorem GoodRelease.stable {h : Handle} {stage : ReleaseStage} (hg : GoodRelease own s u h stage)
    (hr : Rely u own s own' s') : GoodRelease own' s' u h stage := by
  cases stage with
  | lock => exact ⟨hr.owner _ hg.1, hr.state _ _ (by simp) (.inl hg.1) hg.2⟩
  | child | close | final =>
    exact ⟨hr.owner _ hg.1, hr.callLock _ hg.2.1, hr.state _ _ (by simp) (.inl hg.1) hg.2.2⟩
  | idleCheck exit =>
    cases exit with
    | recycled => trivial
    | foundDead => exact hr.dead _ hg
    | retired _ => exact Retired.stable hg hr.toAges

theorem GoodRetireCtx.stable {w : WorkerId} {ctx : RetireCtx} (hg : GoodRetireCtx own s u w ctx)
    (hr : Rely u own s own' s') : GoodRetireCtx own' s' u w ctx := by
  cases ctx with
  | call k sessionId caller err =>
    exact ⟨hr.callLock _ hg.1, hr.state _ _ (by simp) (.inr hg.1) hg.2.1, hr.id _ _ hg.2.2⟩
  | dispatch k sessionId err => exact hr.id _ _ hg
  | release sessionId save err =>
    exact ⟨hr.owner _ hg.1, hr.callLock _ hg.2.1, hr.state _ _ (by simp) (.inl hg.1) hg.2.2⟩
  | guard | reservation | shutdown => trivial

theorem GoodRetire.stable {w : WorkerId} {stage : RetireStage} (hg : GoodRetire own s u w stage)
    (hr : Rely u own s own' s') : GoodRetire own' s' u w stage := by
  cases stage with
  | take => trivial
  | forget _ => exact hr.dead _ hg
  | finish | check => exact Retired.stable hg hr.toAges
  | spawn id => exact ⟨hg.1.stable hr.toAges, hg.2.stable hr⟩
  | install id failed => cases failed <;> exact ⟨hg.1.stable hr.toAges, hg.2.stable hr⟩

theorem GoodReap.stable {w : WorkerId} {stage : ReapStage} (hg : GoodReap s u w stage)
    (hr : Rely u own s own' s') : GoodReap s' u w stage := by
  cases stage with
  | spawned | sleep | inner => trivial
  | count rest live =>
    obtain ⟨hi, seen, hc⟩ := hg
    exact ⟨(hr.inner hi).1, seen, (hr.inner hi).2.1.trans hc⟩
  | take => exact (hr.inner hg).1
  | forget | finish => exact hr.dead _ hg

theorem GoodExit.stable {exit : Exit} (hg : GoodExit own s u exit) (hr : Rely u own s own' s') :
    GoodExit own' s' u exit := by
  cases exit with
  | ok | err _ => trivial
  | released w exit =>
    cases exit with
    | recycled => trivial
    | foundDead => exact hr.dead _ hg
    | retired _ => exact Retired.stable hg hr.toAges
  | abandoned w =>
    obtain ⟨ho, x, hx, hd⟩ := hg
    exact ⟨hr.owner _ ho, x, hx, hr.state _ _ hx (.inl ho) hd⟩

theorem Good.stable {pc : Pc} (hg : Good cfg own s u pc) (hr : Rely u own s own' s') :
    Good cfg own' s' u pc := by
  cases pc with
  | done exit => exact GoodExit.stable hg hr
  | warm left stage =>
    obtain ⟨hu, hserve, hle, hst⟩ := hg
    obtain ⟨hserve', hc, hs⟩ := hr.warm hu hserve
    refine ⟨hu, hserve', by rw [hc, hs]; exact hle, ?_⟩
    cases stage with
    | reserve => trivial
    | spawn id => exact Reserved.stable hst hr
    | install id failed => cases failed <;> exact Reserved.stable hst hr
  | lease k timeout stage => exact ⟨hr.serving hg.1, hg.2.stable hr⟩
  | call k h caller timeout stage =>
    obtain ⟨hserve, hw, hst, hid⟩ := hg
    refine ⟨hr.serving hserve, hr.known _ hw, ?_, hr.id _ _ hid⟩
    cases stage with
    | lock => trivial
    | child => exact hr.callLock _ hst
    | await => exact ⟨hr.callLock _ hst.1, hr.state _ _ (by simp) (.inr hst.1) hst.2⟩
  | dispatchHandle | takeHandle => exact hr.serving hg
  | dispatchClear => exact ⟨hr.serving hg.1, hr.known _ hg.2.1, hr.id _ _ hg.2.2⟩
  | openStore => exact ⟨hr.serving hg.1, hr.known _ hg.2⟩
  | release h save stage => exact ⟨hr.serving hg.1, hr.known _ hg.2.1, hg.2.2.stable hr⟩
  | retire w ctx stage =>
    exact ⟨hr.serving hg.1, hr.known _ hg.2.1, hg.2.2.1.stable hr, hg.2.2.2.stable hr⟩
  | reap w started stage => exact ⟨hr.serving hg.1, hr.known _ hg.2.1, hg.2.2.stable hr⟩
  | unreserve id slot =>
    cases slot with
    | false => exact ⟨hr.serving hg.1, hg.2.stable hr⟩
    | true =>
      obtain ⟨hserve, x, hres⟩ := hg
      exact ⟨hr.serving hserve, x, hres.stable hr⟩

end IdaHeadless.WorkerPool
