import IdaHeadless.WorkerPool.Effects
import IdaHeadless.WorkerPool.Moves

/-!
# The invariant of the worker pool

Every move of every task is sound (`Sound`): it respects what the other tasks
rely on, keeps the global facts, and leaves the moved and the spawned tasks with
their assertions. So in every reachable world each task's assertion holds.
-/

namespace IdaHeadless.WorkerPool

/- `m` is what task `t` does in `s`; the tasks it spawns get the ids from `n` on. -/
def Sound (cfg : Config) (n : ℕ) (t : TaskId) (own : Own) (s : Pool) (m : Move) : Prop :=
  ∃ own', Keeps cfg t own s own' m.mem ∧ Good cfg own' m.mem t m.point ∧
    ∀ (i : ℕ) p, m.spawned[i]? = some p → Good cfg own' m.mem (n + i) p

variable {cfg : Config} {own own' : Own} {s s' : Pool} {n : ℕ} {t : TaskId} {o : Outcome} {m : Move}

/- A move that spawns nothing. -/
theorem Sound.mk {pc : Pc} (hk : Keeps cfg t own s own' s') (hg : Good cfg own' s' t pc) :
    Sound cfg n t own s ⟨s', pc, []⟩ :=
  ⟨own', hk, hg, by simp⟩

theorem Sound.after (hk : Keeps cfg t own s own' s') (h : Sound cfg n t own' s' m) :
    Sound cfg n t own s m := by
  obtain ⟨own'', hk', hrest⟩ := h
  exact ⟨own'', hk.trans hk', hrest⟩

theorem live_length_le (s : Pool) : s.live.length ≤ s.children.length := List.length_filter_le _ _

/-! ### The life of a reservation -/

theorem nextId_unused (hG : Global cfg own s) :
    s.nextId ∉ s.spawning ∧ s.stateOf s.nextId = none := by
  refine ⟨fun h => Nat.lt_irrefl _ (hG.spawning_lt _ h), ?_⟩
  by_contra hne
  exact Nat.lt_irrefl _ (hG.slot_lt _ hne)

theorem reserve_reserved (hG : Global cfg own s) :
    Reserved (Function.update own s.nextId (.task t)) s.reserve t s.nextId none :=
  ⟨Finset.mem_insert_self _ _, Function.update_self .., (nextId_unused hG).2⟩

theorem build_reserved {id : WorkerId} {x : Option ChildState} (hres : Reserved own s t id x)
    (slot : Slot) : Reserved own (s.setSlot id slot) t id (some slot.state) := by
  refine ⟨hres.1, hres.2.1, ?_⟩
  rw [stateOf_setSlot, if_pos rfl]

theorem finish_known {id : WorkerId} {x : ChildState} {install : Bool}
    (hres : Reserved own s t id (some x)) : Known (s.finishReservation id install) id := by
  have hst : (s.finishReservation id install).stateOf id = some x := hres.2.2
  exact ⟨by rw [hst]; simp, Finset.notMem_erase id s.spawning⟩

theorem known_ne_nextId {w : WorkerId} (hG : Global cfg own s) (hk : Known s w) : w ≠ s.nextId :=
  fun he => hk.1 (he ▸ (nextId_unused hG).2)

theorem Reserved.ne_known {id w : WorkerId} {x : Option ChildState} (hres : Reserved own s t id x)
    (hk : Known s w) : w ≠ id :=
  fun he => hk.2 (he ▸ hres.1)

theorem Reserved.unlockCall {id w : WorkerId} {x : Option ChildState}
    (hres : Reserved own s t id x) : Reserved own (s.unlockCall w) t id x :=
  ⟨hres.1, hres.2.1, stateOf_unlockCall.trans hres.2.2⟩

/-! ### `warm_min` -/

theorem warm_sound {left : ℕ} {stage : WarmStage} (hG : Global cfg own s)
    (hg : Good cfg own s t (.warm left stage)) (hm : WarmMove s left stage o m) :
    Sound cfg n t own s m := by
  obtain ⟨ht, hserve, hle, hst⟩ := hg
  have hmin : cfg.min ≤ cfg.maxWorkers := Nat.min_le_right _ _
  have hlive := live_length_le s
  cases hm with
  | serves => exact Sound.mk (serve_keeps hG ht) trivial
  | reserves left free =>
    have hroom : s.liveOrReserved < cfg.maxWorkers := by
      unfold Pool.liveOrReserved
      omega
    refine Sound.mk (reserve_keeps hG (.inl free) (.inl ht) hroom)
      ⟨ht, hserve, ?_, reserve_reserved hG⟩
    have hcard : s.reserve.spawning.card = s.spawning.card + 1 :=
      Finset.card_insert_of_notMem (nextId_unused hG).1
    have hch : s.reserve.children = s.children := rfl
    rw [hcard, hch]
    omega
  | spawned left id =>
    exact Sound.mk (build_keeps _ hG hst) ⟨ht, hserve, hle, build_reserved hst _⟩
  | spawnFailed left id started detail =>
    exact Sound.mk (Keeps.refl hG) ⟨ht, hserve, hle, hst⟩
  | installed left id free =>
    refine Sound.mk (finish_keeps (o := .nobody) _ hG hst free (.inl ht) (by simp) (by simp))
      ⟨ht, hserve, ?_, trivial⟩
    have hcard : (s.finishReservation id true).spawning.card + 1 = s.spawning.card :=
      Finset.card_erase_add_one hst.1
    have hch : (s.finishReservation id true).children.length = s.children.length + 1 :=
      List.length_append
    rw [hch]
    omega
  | failed left id err free =>
    exact Sound.mk (finish_keeps (o := .nobody) _ hG hst free (.inl ht) (by simp) (by simp))
      trivial

/-! ### `lease_for_open` and `lease` -/

/- The end of `unlockHandle`, by the task that has the lock. -/
theorem unlockHandle_keeps {k : SessionRef} (hG : Global cfg own s) (hh : HoldsHandle s t k) :
    Keeps cfg t own s own (s.unlockHandle k) := by
  obtain ⟨hl, hn⟩ := hh
  cases hs : s.sessions k with
  | none =>
    rw [Pool.handleLockOf, hs] at hl
    cases hl
  | some se =>
    rw [unlockHandle_eq hs]
    rw [handleLockOf_eq hs] at hl
    refine clear_keeps hG hs rfl ?_ (.inl rfl)
    intro u hu hu'
    rw [hl] at hu'
    exact absurd (Option.some.inj hu').symm hu

theorem leased_sound {k : SessionRef} {se : Session} {timeout : ℕ} {w : WorkerId}
    (hG : Global cfg own s) (hserve : s.serving = true) (hs : s.sessions k = some se)
    (hlock : se.handleLock = some t) (ho : own w = .task t) (hw : Known s w)
    (hst : OrDead s w (.leased se.sessionId)) :
    Sound cfg n t own s (leased s k se timeout w) :=
  Sound.mk (store_keeps hG hs hlock ho hw hst) ⟨hserve, hw, trivial,
    (store_keeps hG hs hlock ho hw hst).ages.id k _ (idOf_eq hs)⟩

theorem scanNext_sound {k : SessionRef} {timeout active : ℕ} {rest deadIds : List WorkerId}
    (hG : Global cfg own s) (hserve : s.serving = true)
    (hg : GoodLease own s t k (.scan rest active deadIds)) :
    Sound cfg n t own s (scanNext cfg s k timeout rest active deadIds) := by
  cases rest with
  | cons w rest => exact Sound.mk (Keeps.refl hG) ⟨hserve, hg⟩
  | nil =>
    obtain ⟨hh, hi, hdead, seen, hseen, hle⟩ := hg
    rw [List.append_nil] at hseen
    have hforget : Keeps cfg t own s own (s.forget deadIds).unlockInner :=
      (forget_keeps _ hG (.inr hi) hserve).trans
        (unlockInner_keeps (forget_keeps _ hG (.inr hi) hserve).global hi)
    have hh' : HoldsHandle (s.forget deadIds).unlockInner t k := hh
    unfold scanNext
    dsimp only
    split
    · exact Sound.mk (hforget.trans (unlockHandle_keeps hforget.global hh')) trivial
    · rename_i hlt
      have hcount : s.liveOrReserved ≤ active := by
        unfold Pool.liveOrReserved Pool.live
        rw [hseen]
        exact hle
      have hless : (s.forget deadIds).unlockInner.liveOrReserved ≤ s.liveOrReserved := by
        refine Nat.add_le_add_left ?_ _
        exact ((List.filter_sublist (l := s.children)).filter _).length_le
      refine Sound.mk (hforget.trans (reserve_keeps hforget.global (.inl rfl) (.inr hserve) ?_))
        ⟨hserve, hh, reserve_reserved hforget.global⟩
      omega

/- The slots counted so far, and one more. -/
theorem scan_step {w : WorkerId} {rest : List WorkerId} {active b : ℕ}
    (h : ∃ seen, s.children = seen ++ w :: rest ∧
      s.spawning.card + (s.liveOf seen).length ≤ active)
    (hb : s.stateOf w ≠ some .dead → b = 1) :
    ∃ seen, s.children = seen ++ rest ∧
      s.spawning.card + (s.liveOf seen).length ≤ active + b := by
  obtain ⟨seen, hseen, hle⟩ := h
  refine ⟨seen ++ [w], by rw [hseen, List.append_assoc]; rfl, ?_⟩
  have happ : s.liveOf (seen ++ [w]) = s.liveOf seen ++ s.liveOf [w] := List.filter_append ..
  have hone : (s.liveOf [w]).length ≤ b := by
    by_cases hd : s.stateOf w = some .dead
    · simp [Pool.liveOf, hd]
    · rw [hb hd]
      exact List.length_filter_le _ _
  rw [happ, List.length_append]
  omega

/- The scan grants the idle slot `w`. -/
theorem grant_sound {k : SessionRef} {timeout : ℕ} {w : WorkerId} {slot : Slot} {se : Session}
    (hG : Global cfg own s) (hserve : s.serving = true) (hi : s.inner = some t) (hw : Known s w)
    (hslot : s.slots w = some slot) (hidle : slot.state = .idle) (hse : s.sessions k = some se)
    (hlock : se.handleLock = some t) :
    Sound cfg n t own s (leased
      (s.setSlot w { slot with state := .leased se.sessionId, lastUsed := s.now }).unlockInner
      k se timeout w) := by
  have hfree : own w = .nobody := hG.idle_free w (by rw [stateOf_eq hslot, hidle]) hw.2
  have hgrant := owned_keeps (t := t) (o := .task t)
    { slot with state := .leased se.sessionId, lastUsed := s.now }
    hG hslot hw.2 (by rw [hidle]; simp) rfl (by simp) (.inl ⟨hfree, hidle⟩)
  have hfinal := hgrant.trans (unlockInner_keeps hgrant.global hi)
  have hst : (s.setSlot w { slot with state := .leased se.sessionId, lastUsed := s.now }).stateOf
      w = some (.leased se.sessionId) := by
    rw [stateOf_setSlot, if_pos rfl]
  exact Sound.after hfinal (leased_sound hfinal.global hserve hse hlock
    (Function.update_self ..) (hgrant.ages.known w hw) (.inl hst))

theorem HoldsHandle.session {k : SessionRef} {se : Session} (hh : HoldsHandle s t k)
    (hse : s.sessions k = some se) : se.handleLock = some t := by
  rw [← handleLockOf_eq hse]
  exact hh.1

theorem lease_sound {k : SessionRef} {timeout : ℕ} {stage : LeaseStage}
    (hG : Global cfg own s) (hg : Good cfg own s t (.lease k timeout stage))
    (hm : LeaseMove cfg s t k timeout stage o m) : Sound cfg n t own s m := by
  obtain ⟨hserve, hst⟩ := hg
  cases hm with
  | held se h session free handle =>
    have hok := hG.handle_ok k h (by rw [handleOf_eq session]; exact handle)
    exact Sound.mk (Keeps.refl hG) ⟨hserve, hok.2.2.1, trivial, hok.2.1⟩
  | locked se session free handle =>
    refine Sound.mk (clear_keeps hG session rfl ?_ (.inl rfl)) ⟨hserve, ?_, ?_⟩
    · intro u hu hl
      rw [free] at hl
      cases hl
    · rw [handleLockOf_setSession, if_pos rfl]
    · rw [handleOf_setSession, if_pos rfl]
      exact handle
  | scans free =>
    have hlock := lockInner_keeps (t := t) hG free
    refine Sound.after hlock (scanNext_sound hlock.global hserve ⟨hst, rfl, by simp, ?_⟩)
    exact ⟨[], rfl, le_rfl⟩
  | foundDead w rest active deadIds slot found dead =>
    obtain ⟨hh, hi, hdead, hseen⟩ := hst
    have hd : s.stateOf w = some .dead := by rw [stateOf_eq found, dead]
    refine scanNext_sound hG hserve ⟨hh, hi, ?_, ?_⟩
    · intro v hv
      rcases List.mem_append.mp hv with h | h
      · exact hdead v h
      · rw [List.mem_singleton.mp h]
        exact hd
    · exact scan_step (b := 0) hseen (fun h => absurd hd h)
  | foundBusy w rest active deadIds slot found live busy =>
    obtain ⟨hh, hi, hdead, hseen⟩ := hst
    exact scanNext_sound hG hserve ⟨hh, hi, hdead, scan_step hseen (fun _ => rfl)⟩
  | granted w rest active deadIds slot se found idle session =>
    obtain ⟨hh, hi, -, seen, hseen, -⟩ := hst
    have hw : Known s w := hG.children_known w (by rw [hseen]; simp)
    exact grant_sound hG hserve hi hw found idle session (hh.session session)
  | spawned id se session =>
    exact Sound.mk (build_keeps _ hG hst.2)
      ⟨hserve, hst.1, se.sessionId, idOf_eq session, build_reserved hst.2 _⟩
  | spawnFailed id started detail =>
    exact Sound.mk (Keeps.refl hG) ⟨hserve, hst.1, hst.2, _, rfl⟩
  | installed id se free session =>
    obtain ⟨hh, sessionId, hid, hres⟩ := hst
    rw [idOf_eq session] at hid
    cases hid
    have hfin := finish_keeps (o := .task t) true hG hres free (.inr hserve)
      (fun _ => by simp) (by simp)
    exact Sound.after hfin (leased_sound hfin.global hserve session (hh.session session)
      (Function.update_self ..) (finish_known hres) (.inl hres.2.2))
  | failed id err free =>
    have hfin := finish_keeps (o := .nobody) false hG hst.2.1 free (.inr hserve)
      (by simp) (by simp)
    exact Sound.mk (hfin.trans (unlockHandle_keeps hfin.global hst.1)) trivial

/-! ### `call_tool` -/

theorem unlockCall_keeps {w : WorkerId} (hG : Global cfg own s) (hw : Known s w)
    (hl : s.callLockOf w = some t) : Keeps cfg t own s own (s.unlockCall w) := by
  obtain ⟨slot, hslot⟩ := hw.exists_slot
  rw [unlockCall_eq hslot]
  rw [callLockOf_eq hslot] at hl
  refine touch_keeps hG hslot rfl ?_
  intro u hu hu'
  rw [hl] at hu'
  exact absurd (Option.some.inj hu').symm hu

/- `call_lock.lock()`, which was free. -/
theorem lockCall_keeps {w : WorkerId} {slot : Slot} (hG : Global cfg own s)
    (hslot : s.slots w = some slot) (hfree : slot.callLock = none) :
    Keeps cfg t own s own (s.setSlot w { slot with callLock := some t }) := by
  refine touch_keeps hG hslot rfl ?_
  intro u hu hl
  rw [hfree] at hl
  cases hl

theorem dispatchExit_good {err : Option ToolError} : GoodExit own s t (dispatchExit err) := by
  cases err with
  | none => trivial
  | some e =>
    simp only [dispatchExit]
    split <;> trivial

theorem openErrPc_good {k : SessionRef} {fresh : Bool} {err : ToolError}
    (hserve : s.serving = true) : Good cfg own s t (openErrPc k fresh err) := by
  unfold openErrPc
  split
  · exact hserve
  · trivial

theorem callErrPc_good {k : SessionRef} {h : Handle} {caller : Caller} {err : ToolError}
    (hserve : s.serving = true) (hw : Known s h.workerId) (hid : s.idOf k = some h.sessionId) :
    Good cfg own s t (callErrPc k h caller err) := by
  cases caller with
  | dispatch tool => exact ⟨hserve, hw, hid⟩
  | openObserved fresh => exact openErrPc_good hserve

theorem callOkPc_good {k : SessionRef} {h : Handle} {caller : Caller} {err : Option ToolError}
    {info : Option String} (hserve : s.serving = true) (hw : Known s h.workerId)
    (hid : s.idOf k = some h.sessionId) :
    Good cfg own s t (callOkPc k h caller err info) := by
  cases caller with
  | dispatch tool =>
    cases err with
    | none => trivial
    | some e =>
      simp only [callOkPc]
      split
      · exact ⟨hserve, hw, hid⟩
      · exact dispatchExit_good
  | openObserved fresh =>
    cases err with
    | some e => exact openErrPc_good hserve
    | none =>
      cases info with
      | none => exact openErrPc_good hserve
      | some path => exact ⟨hserve, hw⟩

theorem call_sound {k : SessionRef} {h : Handle} {caller : Caller} {timeout : ℕ}
    {stage : CallStage} (hG : Global cfg own s)
    (hg : Good cfg own s t (.call k h caller timeout stage))
    (hm : CallMove s t k h caller timeout stage o m) : Sound cfg n t own s m := by
  obtain ⟨hserve, hw, hst, hid⟩ := hg
  cases hm with
  | locked slot found free =>
    have hk := lockCall_keeps (t := t) hG found free
    refine Sound.mk hk ⟨hserve, hk.ages.known _ hw, ?_, hk.ages.id _ _ hid⟩
    show (s.setSlot h.workerId _).callLockOf h.workerId = some t
    rw [callLockOf_setSlot, if_pos rfl]
  | sent slot found leased =>
    have hl : s.callLockOf h.workerId = some t := hst
    have hk : Keeps cfg t own s own (s.setSlot h.workerId
        { slot with sent := slot.sent ++ [.tool h.sessionId caller.tool] }) :=
      touch_keeps hG found rfl (fun _ _ h => h)
    refine Sound.mk hk ⟨hserve, hk.ages.known _ hw, ⟨?_, .inl ?_⟩, hk.ages.id _ _ hid⟩
    · rw [callLockOf_setSlot, if_pos rfl, ← callLockOf_eq found]
      exact hl
    · rw [stateOf_setSlot, if_pos rfl]
      exact congrArg some leased
  | refused slot found other =>
    have hk := unlockCall_keeps hG hw hst
    exact Sound.mk hk (callErrPc_good (hk.ages.serving hserve) (hk.ages.known _ hw)
      (hk.ages.id _ _ hid))
  | answered err info =>
    have hk := unlockCall_keeps hG hw hst.1
    exact Sound.mk hk (callOkPc_good (hk.ages.serving hserve) (hk.ages.known _ hw)
      (hk.ages.id _ _ hid))
  | crashed | timedOut | cancelled =>
    exact Sound.mk (Keeps.refl hG) ⟨hserve, hw, ⟨hst.1, hst.2, hid⟩, trivial⟩

/-! ### The tasks of one await -/

theorem single_sound {pc : Pc} (hG : Global cfg own s) (hg : Good cfg own s t pc)
    (hm : SingleMove s pc m) : Sound cfg n t own s m := by
  cases hm with
  | notOpen k tool timeout se session free handle => exact Sound.mk (Keeps.refl hG) trivial
  | dispatched k tool timeout se h session free handle =>
    have hok := hG.handle_ok k h (by rw [handleOf_eq session]; exact handle)
    exact Sound.mk (Keeps.refl hG) ⟨hg, hok.2.2.1, trivial, hok.2.1⟩
  | cleared k h retire err se session free =>
    obtain ⟨hserve, hw, hid⟩ := hg
    have hk : Keeps cfg t own s own (s.setSession k (se.clearHandleIfWorker h.workerId)) := by
      unfold Session.clearHandleIfWorker
      split
      · exact clear_keeps hG session rfl (fun _ _ h => h) (.inr rfl)
      · exact clear_keeps hG session rfl (fun _ _ h => h) (.inl rfl)
    refine Sound.mk hk ?_
    cases retire with
    | true => exact ⟨hserve, hk.ages.known _ hw, hk.ages.id _ _ hid, trivial⟩
    | false => trivial
  | stored k h path slot found =>
    exact Sound.mk (touch_keeps hG found rfl (fun _ _ h => h)) trivial
  | nothingTaken k save detached se session free handle => exact Sound.mk (Keeps.refl hG) trivial
  | taken k save detached se h session free handle =>
    have hok := hG.handle_ok k h (by rw [handleOf_eq session]; exact handle)
    exact Sound.mk (take_keeps hG session handle)
      ⟨hg, hok.2.2.1, Function.update_self .., hok.2.2.2⟩
  | unreserved id built free =>
    cases built with
    | false =>
      exact Sound.mk (finish_keeps (o := .nobody) _ hG hg.2 free (.inr hg.1) (by simp) (by simp))
        trivial
    | true =>
      obtain ⟨hserve, x, hres⟩ := hg
      exact Sound.mk (finish_keeps (o := .nobody) _ hG hres free (.inr hserve) (by simp) (by simp))
        ⟨hserve, finish_known hres, trivial, trivial⟩

/-! ### `release_with_save` -/

/- The worker turned out to be dead. -/
theorem foundDead_sound {h : Handle} {save : Bool} {slot : Slot} (hG : Global cfg own s)
    (hserve : s.serving = true) (hw : Known s h.workerId) (hl : s.callLockOf h.workerId = some t)
    (hslot : s.slots h.workerId = some slot) (hdead : slot.state = .dead) :
    Sound cfg n t own s
      ⟨s.unlockCall h.workerId, .release h save (.idleCheck .foundDead), []⟩ := by
  have hk := unlockCall_keeps hG hw hl
  exact Sound.mk hk ⟨hk.ages.serving hserve, hk.ages.known _ hw,
    hk.ages.dead _ (by rw [stateOf_eq hslot, hdead])⟩

theorem release_sound {h : Handle} {save : Bool} {stage : ReleaseStage}
    (hG : Global cfg own s) (hg : Good cfg own s t (.release h save stage))
    (hm : ReleaseMove s t h save stage o m) : Sound cfg n t own s m := by
  obtain ⟨hserve, hw, hst⟩ := hg
  cases hm with
  | locked slot found free =>
    obtain ⟨ho, hd⟩ := hst
    have hk := lockCall_keeps (t := t) hG found free
    refine Sound.mk hk ⟨hserve, hk.ages.known _ hw, ho, ?_, ?_⟩
    · rw [callLockOf_setSlot, if_pos rfl]
    · rw [OrDead, stateOf_setSlot, if_pos rfl, ← stateOf_eq found]
      exact hd
  | diedBefore slot found dead => exact foundDead_sound hG hserve hw hst.2.1 found dead
  | diedAfter slot found dead => exact foundDead_sound hG hserve hw hst.2.1 found dead
  | closing slot found live =>
    obtain ⟨ho, hl, hd⟩ := hst
    have hk := owned_keeps (t := t) (o := .task t) { slot with
        state := .closing
        sent := slot.sent ++ [.closeIdb h.sessionId save] } hG found hw.2 live rfl (by simp)
      (.inr ⟨ho, by rw [← callLockOf_eq found]; exact hl⟩)
    refine Sound.mk hk ⟨hserve, hk.ages.known _ hw, Function.update_self .., ?_, .inl ?_⟩
    · rw [callLockOf_setSlot, if_pos rfl, ← callLockOf_eq found]
      exact hl
    · rw [stateOf_setSlot, if_pos rfl]
  | closed a ok => exact Sound.mk (Keeps.refl hG) ⟨hserve, hw, hst⟩
  | closeFailed a err failed => exact Sound.mk (Keeps.refl hG) ⟨hserve, hw, hst, trivial⟩
  | recycled slot found live =>
    obtain ⟨ho, hl, hd⟩ := hst
    have hk := owned_keeps (t := t) (o := .nobody) { slot with
        state := .idle
        lastUsed := s.now
        idbPath := none } hG found hw.2 live rfl (by simp)
      (.inr ⟨ho, by rw [← callLockOf_eq found]; exact hl⟩)
    have hk' := unlockCall_keeps (t := t) hk.global (hk.ages.known _ hw) (by
      rw [callLockOf_setSlot, if_pos rfl, ← callLockOf_eq found]
      exact hl)
    exact Sound.mk (hk.trans hk') ⟨hk'.ages.serving (hk.ages.serving hserve),
      hk'.ages.known _ (hk.ages.known _ hw), trivial⟩
  | ended exit slot found =>
    refine ⟨own, Keeps.refl hG, ?_, ?_⟩
    · cases exit with
      | recycled => trivial
      | foundDead | retired _ => exact hst
    intro i p hp
    have hmem := List.mem_of_getElem? hp
    split at hmem
    · rw [List.mem_singleton.mp hmem]
      exact ⟨hserve, hw, trivial⟩
    · cases hmem

/-! ### `mark_dead_inner` and `ensure_min_workers` -/

theorem GoodRetireCtx.frame {w : WorkerId} {ctx : RetireCtx} (hg : GoodRetireCtx own s t w ctx)
    (ho : own' w = own w) (hl : s'.callLockOf w = s.callLockOf w) (ha : Ages s s')
    (hst : ∀ x, OrDead s w x → OrDead s' w x) : GoodRetireCtx own' s' t w ctx := by
  cases ctx with
  | call k sessionId caller err => exact ⟨hl.trans hg.1, hst _ hg.2.1, ha.id _ _ hg.2.2⟩
  | release sessionId save err => exact ⟨ho.trans hg.1, hl.trans hg.2.1, hst _ hg.2.2⟩
  | dispatch k sessionId err => exact ha.id _ _ hg
  | guard | reservation | shutdown => trivial

theorem retireDone_sound {w : WorkerId} {ctx : RetireCtx} (hG : Global cfg own s)
    (hserve : s.serving = true) (hw : Known s w) (hctx : GoodRetireCtx own s t w ctx)
    (hdead : Retired s w) : Sound cfg n t own s (retireDone s w ctx) := by
  cases ctx with
  | call k sessionId caller err =>
    have hk := unlockCall_keeps hG hw hctx.1
    exact Sound.mk hk (callErrPc_good (hk.ages.serving hserve) (hk.ages.known _ hw)
      (hk.ages.id _ _ hctx.2.2))
  | release sessionId save err =>
    have hk := unlockCall_keeps hG hw hctx.2.1
    exact Sound.mk hk ⟨hk.ages.serving hserve, hk.ages.known _ hw, hdead.stable hk.ages⟩
  | dispatch k sessionId err => exact Sound.mk (Keeps.refl hG) dispatchExit_good
  | guard | reservation | shutdown => exact Sound.mk (Keeps.refl hG) trivial

theorem retireReplenish_sound {w : WorkerId} {ctx : RetireCtx} (hG : Global cfg own s)
    (hserve : s.serving = true) (hw : Known s w) (hctx : GoodRetireCtx own s t w ctx)
    (hdead : Retired s w) : Sound cfg n t own s (retireReplenish s w ctx) := by
  unfold retireReplenish
  split
  · exact Sound.mk (Keeps.refl hG) ⟨hserve, hw, hctx, hdead⟩
  · exact retireDone_sound hG hserve hw hctx hdead

theorem retire_sound {w : WorkerId} {ctx : RetireCtx} {stage : RetireStage}
    (hG : Global cfg own s) (hg : Good cfg own s t (.retire w ctx stage))
    (hm : RetireMove cfg s w ctx stage o m) : Sound cfg n t own s m := by
  obtain ⟨hserve, hw, hctx, hst⟩ := hg
  have hgone : s.stateOf w = some .dead → Retired (s.forget [w]) w := by
    intro hdead
    exact ⟨hdead, hG.slot_lt w hw.1, hw.2, by simp [Pool.forget]⟩
  cases hm with
  | wasDead slot found dead =>
    refine Sound.mk (Keeps.refl hG) ⟨hserve, hw, hctx, ?_⟩
    show s.stateOf w = some .dead
    rw [stateOf_eq found, dead]
  | killed slot found live =>
    have hk := kill_keeps (t := t) hG found hw.2
    have hdead : (s.setSlot w slot.kill).stateOf w = some .dead := by
      rw [stateOf_setSlot, if_pos rfl]
      rfl
    refine Sound.mk hk ⟨hserve, hk.ages.known _ hw, hctx.frame rfl ?_ hk.ages ?_, hdead⟩
    · rw [callLockOf_setSlot, if_pos rfl, callLockOf_eq found]
      rfl
    · exact fun _ _ => .inr hdead
  | forgotten free =>
    have hk := forget_keeps (t := t) [w] hG (.inl free) hserve
    exact Sound.mk hk ⟨hserve, hw, hctx, hgone hst⟩
  | forgottenDead free =>
    have hk := forget_keeps (t := t) [w] hG (.inl free) hserve
    exact Sound.after hk (retireReplenish_sound hk.global hserve hw hctx (hgone hst))
  | finished => exact retireReplenish_sound hG hserve hw hctx hst
  | enough satisfied => exact retireDone_sound hG hserve hw hctx hst
  | reserves wanted free below room =>
    have hlive := live_length_le s
    have hroom : s.liveOrReserved < cfg.maxWorkers := by
      unfold Pool.liveOrReserved
      omega
    have hk := reserve_keeps (t := t) hG (.inl free) (.inr hserve) hroom
    refine Sound.mk hk ⟨hserve, hk.ages.known _ hw, hctx.frame ?_ rfl hk.ages (fun _ h => h),
      Retired.stable hst hk.ages, reserve_reserved hG⟩
    exact Function.update_of_ne (known_ne_nextId hG hw) _ _
  | spawned id =>
    obtain ⟨hdead, hres⟩ := hst
    have hne := hres.ne_known hw
    have hk := build_keeps (Slot.fresh .idle s.now) hG hres
    refine Sound.mk hk ⟨hserve, hk.ages.known _ hw, hctx.frame rfl ?_ hk.ages ?_,
      hdead.stable hk.ages, build_reserved hres _⟩
    · rw [callLockOf_setSlot, if_neg hne]
    · intro x hx
      rw [OrDead, stateOf_setSlot, if_neg hne]
      exact hx
  | spawnFailed id started detail => exact Sound.mk (Keeps.refl hG) ⟨hserve, hw, hctx, hst⟩
  | installed id free =>
    obtain ⟨hdead, hres⟩ := hst
    have hk := finish_keeps (o := .nobody) true hG hres free (.inr hserve) (by simp) (by simp)
    exact Sound.mk hk ⟨hserve, hk.ages.known _ hw,
      hctx.frame (Function.update_of_ne (hres.ne_known hw) _ _) rfl hk.ages (fun _ h => h),
      hdead.stable hk.ages⟩
  | failed id err free =>
    obtain ⟨hdead, hres⟩ := hst
    have hk := finish_keeps (o := .nobody) false hG hres free (.inr hserve) (by simp) (by simp)
    exact Sound.after hk (retireDone_sound hk.global hserve (hk.ages.known _ hw)
      (hctx.frame (Function.update_of_ne (hres.ne_known hw) _ _) rfl hk.ages (fun _ h => h))
      (hdead.stable hk.ages))

/-! ### The task of `schedule_idle_reap` -/

theorem countNext_sound {w : WorkerId} {started live : ℕ} {rest : List WorkerId}
    (hG : Global cfg own s) (hserve : s.serving = true) (hw : Known s w)
    (hg : GoodReap s t w (.count rest live)) :
    Sound cfg n t own s (countNext cfg s w started rest live) := by
  cases rest with
  | cons c rest => exact Sound.mk (Keeps.refl hG) ⟨hserve, hw, hg⟩
  | nil =>
    unfold countNext
    dsimp only
    split
    · exact Sound.mk (unlockInner_keeps hG hg.1) trivial
    · exact Sound.mk (Keeps.refl hG) ⟨hserve, hw, hg.1⟩

theorem reap_sound {w : WorkerId} {started : ℕ} {stage : ReapStage}
    (hG : Global cfg own s) (hg : Good cfg own s t (.reap w started stage))
    (hm : ReapMove cfg s t w started stage o m) : Sound cfg n t own s m := by
  obtain ⟨hserve, hw, hst⟩ := hg
  cases hm with
  | never off => exact Sound.mk (Keeps.refl hG) trivial
  | sleeps on => exact Sound.mk (Keeps.refl hG) ⟨hserve, hw, trivial⟩
  | wakes elapsed => exact Sound.mk (Keeps.refl hG) ⟨hserve, hw, trivial⟩
  | counts free =>
    have hk := lockInner_keeps (t := t) hG free
    exact Sound.after hk (countNext_sound hk.global hserve hw ⟨rfl, [], rfl⟩)
  | counted c rest live slot found =>
    obtain ⟨hi, seen, hseen⟩ := hst
    refine countNext_sound hG hserve hw ⟨hi, seen ++ [c], ?_⟩
    rw [hseen, List.append_assoc]
    rfl
  | kept slot found used => exact Sound.mk (unlockInner_keeps hG hst) trivial
  | reaped slot found idle unused =>
    have hk := kill_keeps (t := t) hG found hw.2
    refine Sound.mk (hk.trans (unlockInner_keeps hk.global hst)) ⟨hserve, hk.ages.known _ hw, ?_⟩
    show (s.setSlot w slot.kill).stateOf w = some .dead
    rw [stateOf_setSlot, if_pos rfl]
    rfl
  | forgotten free => exact Sound.mk (forget_keeps _ hG (.inl free) hserve) ⟨hserve, hw, hst⟩
  | finished => exact Sound.mk (Keeps.refl hG) trivial

theorem advance_sound {pc : Pc} (hG : Global cfg own s) (hg : Good cfg own s t pc)
    (hm : advance cfg s t o pc = some m) : Sound cfg n t own s m := by
  cases advance_moves hm with
  | warm left stage move => exact warm_sound hG hg move
  | lease k timeout stage move => exact lease_sound hG hg move
  | call k h caller timeout stage move => exact call_sound hG hg move
  | release h save stage move => exact release_sound hG hg move
  | retire w ctx stage move => exact retire_sound hG hg move
  | reap w started stage move => exact reap_sound hG hg move
  | single outcome move => exact single_sound hG hg move

/-! ### Dropped futures -/

/- A dropped `SpawnReservation` passes to the task it spawns, after the tasks `first`. -/
theorem unreserve_sound {id : WorkerId} {x : Option ChildState} {pc : Pc} (first : List Pc)
    (hG : Global cfg own s) (hserve : s.serving = true) (hres : Reserved own s t id x)
    (hfirst : ∀ own' u, ∀ p ∈ first, Good cfg own' s u p)
    (hpc : ∀ own', (∀ v, v ∉ s.spawning → own' v = own v) → Good cfg own' s t pc) :
    Sound cfg n t own s ⟨s, pc, first ++ [.unreserve id x.isSome]⟩ := by
  refine ⟨_, transfer_keeps (v := n + first.length) hG hres, hpc _ (fun v hv => ?_),
    fun i p hp => ?_⟩
  · have hne : v ≠ id := by
      intro he
      rw [he] at hv
      exact hv hres.1
    exact Function.update_of_ne hne _ _
  rcases Nat.lt_or_ge i first.length with hi | hi
  · rw [List.getElem?_append_left hi] at hp
    exact hfirst _ _ p (List.mem_of_getElem? hp)
  · rw [List.getElem?_append_right hi] at hp
    have hi' : i = first.length := by
      obtain ⟨hlt, -⟩ := List.getElem?_eq_some_iff.mp hp
      rw [List.length_singleton] at hlt
      omega
    subst hi'
    simp only [Nat.sub_self, List.getElem?_cons_zero, Option.some.injEq] at hp
    subst hp
    have hres' : Reserved (Function.update own id (.task (n + first.length))) s
        (n + first.length) id x := ⟨hres.1, Function.update_self .., hres.2.2⟩
    cases x with
    | none => exact ⟨hserve, hres'⟩
    | some x => exact ⟨hserve, x, hres'⟩

/- Tasks that own nothing are spawned. -/
theorem spawned_sound {first : List Pc} {pc : Pc} (hG : Global cfg own s)
    (hfirst : ∀ own' u, ∀ p ∈ first, Good cfg own' s u p) (hpc : Good cfg own s t pc) :
    Sound cfg n t own s ⟨s, pc, first⟩ :=
  ⟨own, Keeps.refl hG, hpc, fun _ p hp => hfirst own _ p (List.mem_of_getElem? hp)⟩

theorem reservationDrop_sound {w : WorkerId} {stage : RetireStage} {pc : Pc} (first : List Pc)
    (hG : Global cfg own s) (hserve : s.serving = true) (hst : GoodRetire own s t w stage)
    (hfirst : ∀ own' u, ∀ p ∈ first, Good cfg own' s u p)
    (hpc : ∀ own', (∀ v, v ∉ s.spawning → own' v = own v) → Good cfg own' s t pc) :
    Sound cfg n t own s ⟨s, pc, first ++ reservationDrop stage⟩ := by
  cases stage with
  | take | forget _ | finish | check =>
    unfold reservationDrop
    rw [List.append_nil]
    exact spawned_sound hG hfirst (hpc own fun _ _ => rfl)
  | spawn id => exact unreserve_sound first hG hserve hst.2 hfirst hpc
  | install id failed =>
    cases failed with
    | none => exact unreserve_sound first hG hserve hst.2 hfirst hpc
    | some err => exact unreserve_sound first hG hserve hst.2 hfirst hpc

/- The task of a `WorkerRetireGuard`. -/
theorem guard_good {w : WorkerId} {origin : TaskId} {sessionId : String}
    (hserve : s.serving = true) (hw : Known s w) :
    ∀ own' u, ∀ p ∈ [Pc.retire w (.guard origin sessionId) .take], Good cfg own' s u p := by
  intro own' u p hp
  rw [List.mem_singleton.mp hp]
  exact ⟨hserve, hw, trivial, trivial⟩

theorem dropLease_sound {k : SessionRef} {timeout : ℕ} {stage : LeaseStage}
    (hG : Global cfg own s) (hg : Good cfg own s t (.lease k timeout stage))
    (hm : dropTask s t (.lease k timeout stage) = some m) : Sound cfg n t own s m := by
  obtain ⟨hserve, hst⟩ := hg
  cases stage with
  | handle =>
    cases hm
    exact Sound.mk (Keeps.refl hG) trivial
  | inner =>
    cases hm
    exact Sound.mk (unlockHandle_keeps hG hst) trivial
  | scan rest active deadIds =>
    cases hm
    have hk := unlockInner_keeps hG hst.2.1
    exact Sound.mk (hk.trans (unlockHandle_keeps hk.global hst.1)) trivial
  | spawn id =>
    cases hm
    have hk := unlockHandle_keeps hG hst.1
    exact Sound.after hk (unreserve_sound (x := none) [] hk.global hserve hst.2
      (by simp) (fun _ _ => trivial))
  | install id failed =>
    cases failed with
    | none =>
      obtain ⟨hh, sessionId, hid, hres⟩ := hst
      cases hm
      have hk := unlockHandle_keeps hG hh
      exact Sound.after hk (unreserve_sound (x := some (.leased sessionId)) []
        hk.global hserve hres (by simp) (fun _ _ => trivial))
    | some err =>
      cases hm
      have hk := unlockHandle_keeps hG hst.1
      exact Sound.after hk (unreserve_sound (x := none) [] hk.global hserve hst.2.1
        (by simp) (fun _ _ => trivial))

/- A call or a release that held the call lock, with its armed guard. -/
theorem dropGuard_sound {w : WorkerId} {sessionId : String} {exit : Exit} (hG : Global cfg own s)
    (hserve : s.serving = true) (hw : Known s w) (hl : s.callLockOf w = some t)
    (hexit : GoodExit own (s.unlockCall w) t exit) :
    Sound cfg n t own s
      ⟨s.unlockCall w, .done exit, [.retire w (.guard t sessionId) .take]⟩ := by
  have hk := unlockCall_keeps hG hw hl
  exact Sound.after hk (spawned_sound hk.global
    (guard_good (hk.ages.serving hserve) (hk.ages.known _ hw)) hexit)

theorem OrDead.unlockCall {w : WorkerId} {x : ChildState} (h : OrDead s w x) :
    OrDead (s.unlockCall w) w x := by
  unfold OrDead
  rw [stateOf_unlockCall]
  exact h

theorem dropRelease_sound {h : Handle} {save : Bool} {stage : ReleaseStage}
    (hG : Global cfg own s) (hg : Good cfg own s t (.release h save stage))
    (hm : dropTask s t (.release h save stage) = some m) : Sound cfg n t own s m := by
  obtain ⟨hserve, hw, hst⟩ := hg
  cases stage with
  | lock =>
    cases hm
    exact spawned_sound hG (guard_good hserve hw) ⟨hst.1, _, by simp, hst.2⟩
  | child | close | final =>
    cases hm
    exact dropGuard_sound hG hserve hw hst.2.1 ⟨hst.1, _, by simp, hst.2.2.unlockCall⟩
  | idleCheck exit =>
    cases hm
    refine Sound.mk (Keeps.refl hG) ?_
    cases exit with
    | recycled => trivial
    | foundDead | retired _ => exact hst

theorem dropRetire_sound {w : WorkerId} {ctx : RetireCtx} {stage : RetireStage}
    (hG : Global cfg own s) (hg : Good cfg own s t (.retire w ctx stage))
    (hm : dropTask s t (.retire w ctx stage) = some m) : Sound cfg n t own s m := by
  obtain ⟨hserve, hw, hctx, hst⟩ := hg
  have hstage : ∀ hk : Keeps cfg t own s own (s.unlockCall w),
      GoodRetire own (s.unlockCall w) t w stage := by
    intro hk
    cases stage with
    | take => trivial
    | forget _ => exact hk.ages.dead _ hst
    | finish | check => exact Retired.stable hst hk.ages
    | spawn id => exact ⟨hst.1.stable hk.ages, hst.2.unlockCall⟩
    | install id failed =>
      cases failed <;> exact ⟨hst.1.stable hk.ages, hst.2.unlockCall⟩
  cases ctx with
  | call k sessionId caller err =>
    cases hm
    have hk := unlockCall_keeps hG hw hctx.1
    exact Sound.after hk (reservationDrop_sound [_] hk.global (hk.ages.serving hserve) (hstage hk)
      (guard_good (hk.ages.serving hserve) (hk.ages.known _ hw)) (fun _ _ => trivial))
  | release sessionId save err =>
    cases hm
    have hk := unlockCall_keeps hG hw hctx.2.1
    exact Sound.after hk (reservationDrop_sound [_] hk.global (hk.ages.serving hserve) (hstage hk)
      (guard_good (hk.ages.serving hserve) (hk.ages.known _ hw))
      (fun own' ho => ⟨(ho w hw.2).trans hctx.1, _, by simp, hctx.2.2.unlockCall⟩))
  | dispatch k sessionId err =>
    cases hm
    exact reservationDrop_sound [] hG hserve hst (by simp) (fun _ _ => trivial)
  | guard | reservation | shutdown => cases hm

theorem dropTask_sound {pc : Pc} (hG : Global cfg own s) (hg : Good cfg own s t pc)
    (hm : dropTask s t pc = some m) : Sound cfg n t own s m := by
  cases pc with
  | lease k timeout stage => exact dropLease_sound hG hg hm
  | release h save stage => exact dropRelease_sound hG hg hm
  | retire w ctx stage => exact dropRetire_sound hG hg hm
  | call k h caller timeout stage =>
    obtain ⟨hserve, hw, hst⟩ := hg
    cases stage with
    | lock =>
      cases hm
      exact Sound.mk (Keeps.refl hG) trivial
    | child =>
      cases hm
      exact Sound.mk (unlockCall_keeps hG hw hst.1) trivial
    | await =>
      cases hm
      exact dropGuard_sound hG hserve hw hst.1.1 trivial
  | dispatchHandle | dispatchClear | openStore =>
    cases hm
    exact Sound.mk (Keeps.refl hG) trivial
  | takeHandle k save detached =>
    cases detached with
    | false =>
      cases hm
      exact Sound.mk (Keeps.refl hG) trivial
    | true => cases hm
  | done | warm | reap | unreserve => cases hm

/-! ### Every step -/

/-- The invariant of the pool. -/
structure Inv (cfg : Config) (own : Own) (w : World) : Prop where
  fresh : w.Fresh
  good : w.All (Good cfg) own
  global : Global cfg own w.mem

theorem Inv.lt_next {w : World} {p : Pc} (hI : Inv cfg own w) (h : w.tasks t = some p) :
    t < w.next := by
  by_contra hle
  rw [hI.fresh t (Nat.le_of_not_lt hle)] at h
  cases h

theorem Inv.resume {w : World} (hI : Inv cfg own w) (hm : Sound cfg w.next t own w.mem m) :
    ∃ own', Inv cfg own' (w.resume t m) ∧ Ages w.mem m.mem ∧
      ∀ u, u ≠ t → Rely u own w.mem own' m.mem := by
  obtain ⟨own', hk, hself, hnew⟩ := hm
  exact ⟨own', ⟨Tasks.resume_fresh _ _ _,
    Tasks.resume_all (fun _ _ _ _ _ _ hg hr => hg.stable hr) hI.good hk.rely hself hnew,
    hk.global⟩, hk.ages, hk.rely⟩

/- A change of the memory that no task made, with the tasks `ps` spawned. -/
theorem Inv.environment {w : World} {s' : Pool} {ps : List Pc} (hI : Inv cfg own w)
    (hr : ∀ u, Rely u own w.mem own s') (hG : Global cfg own s')
    (hps : ∀ u, ∀ p ∈ ps, Good cfg own s' u p) :
    Inv cfg own (Tasks.World.spawn { w with mem := s' } ps) :=
  ⟨Tasks.spawn_fresh _ _,
    Tasks.spawn_all (fun _ _ _ _ _ _ hg hr => hg.stable hr) hI.good hr
      (fun _ p hp => hps _ p (List.mem_of_getElem? hp)), hG⟩

theorem start_inv {w w' : World} {k : SessionRef} {pc : Pc} (hI : Inv cfg own w)
    (h : start w k pc = some w')
    (hpc : w.mem.serving = true → ∀ u, Good cfg own w.mem u pc) :
    Inv cfg own w' ∧ w'.mem = w.mem := by
  unfold start at h
  split at h
  · cases h
  · rename_i se hse
    split at h
    · cases h
    · cases h
      refine ⟨hI.environment (fun u => Rely.refl u own w.mem) hI.global fun u p hp => ?_, rfl⟩
      rw [List.mem_singleton.mp hp]
      exact hpc (hI.global.session_serving k (by rw [hse]; simp)) u

theorem addSession_rely (sessionId : String) (hG : Global cfg own s) (u : TaskId) :
    Rely u own s own (s.addSession sessionId) := by
  have hother : ∀ k, s.sessions k ≠ none → k ≠ s.nextSession :=
    fun k hk he => Nat.lt_irrefl _ (he ▸ hG.session_lt k hk)
  refine { Rely.refl u own s with
    reserved := fun v _ hv => ⟨hv, rfl⟩
    id := fun k x hk => (idOf_setSession.trans (if_neg (hother k fun hn => ?_))).trans hk
    handle := fun k hk => ?_ }
  · rw [Pool.idOf, hn] at hk
    cases hk
  · have hne : k ≠ s.nextSession := by
      refine hother k fun hn => ?_
      rw [HoldsHandle, Pool.handleLockOf, hn] at hk
      cases hk.1
    exact ⟨(handleLockOf_setSession.trans (if_neg hne)).trans hk.1,
      (handleOf_setSession.trans (if_neg hne)).trans hk.2⟩

theorem addSession_global {sessionId : String} (hG : Global cfg own s)
    (hserve : s.serving = true) : Global cfg own (s.addSession sessionId) := by
  refine { hG with
    handle_ok := fun k h hh => ?_
    session_lt := fun k hk => ?_
    session_serving := fun _ _ => hserve }
  · have hne : k ≠ s.nextSession := by
      intro he
      rw [show (s.addSession sessionId).handleOf k = _ from handleOf_setSession, if_pos he] at hh
      cases hh
    rw [show (s.addSession sessionId).handleOf k = _ from handleOf_setSession, if_neg hne] at hh
    obtain ⟨ho, hi, hk, hd⟩ := hG.handle_ok k h hh
    exact ⟨ho, (addSession_rely sessionId hG 0).id k _ hi, hk, hd⟩
  · show k < s.nextSession + 1
    by_cases he : k = s.nextSession
    · exact Nat.lt_succ_of_le (Nat.le_of_eq he)
    · have hk' : s.sessions k ≠ none := by
        rw [← Function.update_of_ne he (some ⟨sessionId, none, none, false⟩) s.sessions]
        exact hk
      exact Nat.lt_succ_of_lt (hG.session_lt k hk')

/- The session object `k` is dropped. -/
theorem dropSession_rely {k : SessionRef} {se : Session} (hG : Global cfg own s)
    (hse : s.sessions k = some se) (u : TaskId) :
    Rely u own s own (s.setSession k { se with dropped := true }) ∧
      Global cfg own (s.setSession k { se with dropped := true }) := by
  have hk : Keeps cfg (u + 1) own s own (s.setSession k { se with dropped := true }) :=
    clear_keeps hG hse rfl (fun _ _ h => h) (.inl rfl)
  exact ⟨hk.rely u (Nat.ne_of_lt (Nat.lt_succ_self u)), hk.global⟩

/- `a` resumes or drops task `u`. -/
def Act.Moves (a : Act) (u : TaskId) : Prop := a = .drop u ∨ ∃ o, a = .advance u o

theorem step_inv {w w' : World} {a : Act} (hI : Inv cfg own w) (h : step cfg w a = some w') :
    ∃ own', Inv cfg own' w' ∧ Ages w.mem w'.mem ∧
      ∀ u, ¬ a.Moves u → Rely u own w.mem own' w'.mem := by
  have hsame : ∀ u, Rely u own w.mem own w.mem := fun u => Rely.refl u own w.mem
  have henv : ∀ s', (∀ u, Rely u own w.mem own s') →
      Ages w.mem s' ∧ ∀ u, ¬ a.Moves u → Rely u own w.mem own s' :=
    fun s' hr => ⟨(hr 0).toAges, fun u _ => hr u⟩
  cases a with
  | newSession sessionId =>
    simp only [step] at h
    split at h
    · rename_i hserve
      cases h
      have hr := addSession_rely sessionId hI.global
      exact ⟨own, ⟨hI.fresh, fun u p hp => (hI.good u p hp).stable (hr u),
        addSession_global hI.global hserve⟩, henv _ hr⟩
    · cases h
  | openObserved k timeoutSecs =>
    obtain ⟨hI', hmem⟩ := start_inv hI h (fun hs _ => ⟨hs, trivial⟩)
    exact ⟨own, hI', hmem ▸ henv _ hsame⟩
  | callTool k tool timeoutSecs =>
    obtain ⟨hI', hmem⟩ := start_inv hI h (fun hs _ => hs)
    exact ⟨own, hI', hmem ▸ henv _ hsame⟩
  | closeWithSave k save =>
    obtain ⟨hI', hmem⟩ := start_inv hI h (fun hs _ => hs)
    exact ⟨own, hI', hmem ▸ henv _ hsame⟩
  | dropSession k =>
    simp only [step] at h
    split at h
    · cases h
    · rename_i se hse
      split at h
      · cases h
      · cases h
        have hr := dropSession_rely hI.global hse
        refine ⟨own, hI.environment (fun u => (hr u).1) (hr 0).2 fun u p hp => ?_,
          henv _ fun u => (hr u).1⟩
        rw [List.mem_singleton.mp hp]
        exact hI.global.session_serving k (by rw [hse]; simp)
  | shutdownAll =>
    simp only [step] at h
    split at h
    · cases h
    · rename_i hcond
      cases h
      simp only [not_or, Bool.not_eq_true, Bool.not_eq_false'] at hcond
      refine ⟨own, hI.environment hsame hI.global fun u p hp => ?_, henv _ hsame⟩
      obtain ⟨v, hv, rfl⟩ := List.mem_map.mp hp
      exact ⟨hcond.2, hI.global.children_known v hv, trivial, trivial⟩
  | tick =>
    cases h
    have hr : ∀ u, Rely u own w.mem own { w.mem with now := w.mem.now + 1 } := fun u =>
      { Rely.refl u own w.mem with reserved := fun v _ hv => ⟨hv, rfl⟩ }
    exact ⟨own, ⟨hI.fresh, fun u p hp => (hI.good u p hp).stable (hr u), { hI.global with }⟩,
      henv _ hr⟩
  | advance t o =>
    simp only [step, Option.map_eq_some_iff, Option.bind_eq_some_iff] at h
    obtain ⟨m, ⟨pc, hpc, hm⟩, rfl⟩ := h
    obtain ⟨own', hI', hages, hr⟩ := hI.resume (advance_sound hI.global (hI.good t pc hpc) hm)
    refine ⟨own', hI', hages, fun u hu => hr u fun he => hu (.inr ⟨o, ?_⟩)⟩
    rw [he]
  | drop t =>
    simp only [step, Option.map_eq_some_iff, Option.bind_eq_some_iff] at h
    obtain ⟨m, ⟨pc, hpc, hm⟩, rfl⟩ := h
    obtain ⟨own', hI', hages, hr⟩ := hI.resume (dropTask_sound hI.global (hI.good t pc hpc) hm)
    refine ⟨own', hI', hages, fun u hu => hr u fun he => hu (.inl ?_)⟩
    rw [he]

theorem init_inv (cfg : Config) : Inv cfg (fun _ => .nobody) (init cfg) := by
  refine ⟨?_, ?_, ?_⟩
  · intro u hu
    have hne : u ≠ 0 := Nat.ne_of_gt hu
    exact if_neg hne
  · intro u p hp
    simp only [init] at hp
    split at hp
    · rename_i hu
      cases hp
      exact ⟨hu, rfl, Nat.le_of_eq (Nat.zero_add _), trivial⟩
    · cases hp
  · constructor <;> simp [init, Pool.stateOf, Pool.handleOf, Pool.liveOrReserved, Pool.live]

theorem run_pool_inv {w w' : World} {as : List Act} (hI : ∃ own, Inv cfg own w)
    (h : Runs.run (step cfg) w as = some w') : ∃ own, Inv cfg own w' := by
  refine Runs.run_inv (fun v => ∃ own, Inv cfg own v) ?_ hI h
  intro v a v' ⟨own, hv⟩ hstep
  obtain ⟨own', hv', -⟩ := step_inv hv hstep
  exact ⟨own', hv'⟩

/- What a step keeps wherever the pool's invariant holds, a run keeps; here for the
runs whose steps all meet `G`. -/
theorem run_pool_along {P : World → Prop} {G : World → Act → Prop}
    (hstep : ∀ own v b v', Inv cfg own v → P v → G v b → step cfg v b = some v' → P v')
    {u x : World} {as : List Act} (hI : ∃ own, Inv cfg own u) (hu : P u)
    (hG : Runs.Along (step cfg) G u as) (h : Runs.run (step cfg) u as = some x) :
    (∃ own, Inv cfg own x) ∧ P x := by
  refine Runs.run_inv_along (fun v => (∃ own, Inv cfg own v) ∧ P v) ?_ ⟨hI, hu⟩ hG h
  intro v b v' ⟨⟨own, hv⟩, hp⟩ hb hs
  obtain ⟨own', hv', -⟩ := step_inv hv hs
  exact ⟨⟨own', hv'⟩, hstep own v b v' hv hp hb hs⟩

theorem run_pool_keeps {P : World → Prop}
    (hstep : ∀ own v b v', Inv cfg own v → P v → step cfg v b = some v' → P v')
    {u x : World} {as : List Act} (hI : ∃ own, Inv cfg own u) (hu : P u)
    (h : Runs.run (step cfg) u as = some x) : P x := by
  have hboth := Runs.run_inv (fun v => (∃ own, Inv cfg own v) ∧ P v) (fun v b v' hv hs => by
    obtain ⟨⟨own, hown⟩, hp⟩ := hv
    obtain ⟨own', hv', -⟩ := step_inv hown hs
    exact ⟨⟨own', hv'⟩, hstep own v b v' hown hp hs⟩) ⟨hI, hu⟩ h
  exact hboth.2

theorem reachable_inv {w : World} (h : Reachable cfg w) : ∃ own, Inv cfg own w := by
  obtain ⟨as, hrun⟩ := h
  exact run_pool_inv ⟨_, init_inv cfg⟩ hrun

end IdaHeadless.WorkerPool
