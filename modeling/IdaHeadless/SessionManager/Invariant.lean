import IdaHeadless.SessionManager.Assertions

/-!
# Every move keeps what the session manager keeps

One lemma for each kind of task, assembled to the invariant of every reachable
world.
-/

namespace IdaHeadless.SessionManager

/- A move of task `t` that the other tasks can live with, and that leads `t` to an
await where it knows what it should. -/
structure Sound (t : TaskId) (s : Mem) (mv : Move) : Prop where
  keeps : Keeps t s mv.mem
  good : Good mv.mem t mv.point
  spawned : mv.spawned = []

/- A task that holds nothing and knows nothing waits at `pc`. -/
structure Free (pc : Pc) : Prop where
  opens : pc.opens = false
  locks : pc.locks = none
  fact : ∀ s, Fact s pc

variable {tools : String → Option String} {s : Mem} {t : TaskId} {m : SessionRef} {se : Session}
  {id path : String} {pc : Pc} {mv : Move} {o : Outcome} {f : Session → Session} {n : ℕ}

theorem Free.good (h : Free pc) (s : Mem) (t : TaskId) : Good s t pc where
  opens ho := by
    rw [h.opens] at ho
    cases ho
  locks m hm := by
    rw [h.locks] at hm
    cases hm
  fact := h.fact s

theorem done_free (exit : Exit) : Free (.done exit) := ⟨rfl, rfl, fun _ => trivial⟩

theorem listNext_free (rest : List SessionRef) (seen : List String) :
    Free (listNext rest seen) := by
  cases rest <;> exact ⟨rfl, rfl, fun _ => trivial⟩

theorem reapNext_free (rest : List SessionRef) : Free (reapNext rest) := by
  cases rest <;> exact ⟨rfl, rfl, fun _ => trivial⟩

theorem closeEnd_free (closer : Closer) (exit : Exit) : Free (closeEnd closer exit) := by
  cases closer with
  | client => exact ⟨rfl, rfl, fun _ => trivial⟩
  | shutdown rest => cases rest <;> exact ⟨rfl, rfl, fun _ => trivial⟩

/- The memory does not change. -/
theorem Sound.still (hG : Global s) (hgood : Good s t pc) : Sound t s ⟨s, pc, []⟩ :=
  ⟨Keeps.refl hG, hgood, rfl⟩

theorem Sound.unlockOpen (hG : Global s) (ho : s.openLock = some t) (hfree : Free pc) :
    Sound t s ⟨s.unlockOpen, pc, []⟩ :=
  ⟨openLock_keeps hG none (.inr ho), hfree.good _ _, rfl⟩

/- After a write to `m`, a task that holds the lock of `m` goes on at `pc`. -/
theorem good_set (hopens : pc.opens = true → s.openLock = some t) (hlocks : pc.locks = some m)
    (hl : se.lifecycle = some t) (hn : se.activeCalls = if pc.calls = some m then 1 else 0)
    (hfact : Fact (s.set m se) pc) : Good (s.set m se) t pc where
  opens := hopens
  locks k hk := by
    rw [hlocks] at hk
    cases hk
    exact ⟨se, sessions_set_self, hl, hn⟩
  fact := hfact

/- The lifecycle lock of `m` is taken. -/
theorem lockThen_sound (hG : Global s) (hm : lockThen s t m pc = some mv)
    (hopens : pc.opens = true → s.openLock = some t) (hlocks : pc.locks = some m)
    (hcalls : pc.calls = none)
    (hfact : ∀ se, s.sessions m = some se → Fact (s.set m (se.lock t)) pc) : Sound t s mv := by
  unfold lockThen at hm
  split at hm
  · cases hm
  · rename_i se hse
    split at hm
    · cases hm
    · rename_i hfree
      cases hm
      have hnone : se.lifecycle = none := not_not.mp hfree
      have hzero : se.activeCalls = 0 := hG.idle m se hse hnone
      refine ⟨set_keeps hG hse (.inl hnone) ⟨rfl, rfl, rfl⟩ (by simp [Session.lock]), ?_, rfl⟩
      refine good_set hopens hlocks rfl ?_ (hfact se hse)
      rw [hcalls]
      exact hzero

/- A write to `m` by the task that holds its lock. -/
theorem updateThen_sound (hG : Global s) (hh : Holds s t m n) (hm : updateThen s m f pc = some mv)
    (hsame : ∀ se, Same se (f se))
    (hidle : ∀ se, se.lifecycle = some t → se.activeCalls = n → (f se).lifecycle = none →
      (f se).activeCalls = 0)
    (hgood : ∀ se, s.sessions m = some se → se.lifecycle = some t → se.activeCalls = n →
      Good (s.set m (f se)) t pc) : Sound t s mv := by
  obtain ⟨se, hse, hl, hn⟩ := hh
  simp only [updateThen, hse] at hm
  cases hm
  exact ⟨set_keeps hG hse (.inr hl) (hsame se) (hidle se hl hn), hgood se hse hl hn, rfl⟩

/- A write that keeps the lock. -/
theorem updateLocked_sound (hG : Global s) (hh : Holds s t m n)
    (hm : updateThen s m f pc = some mv)
    (hsame : ∀ se, Same se (f se) ∧ (f se).lifecycle = se.lifecycle) (hopens : pc.opens = false)
    (hlocks : pc.locks = some m)
    (hcalls : ∀ se, se.activeCalls = n →
      (f se).activeCalls = if pc.calls = some m then 1 else 0)
    (hfact : ∀ se, Fact (s.set m (f se)) pc) : Sound t s mv := by
  refine updateThen_sound hG hh hm (fun se => (hsame se).1) (fun se hl hn hnone => ?_)
    fun se hse hl hn => ?_
  · rw [(hsame se).2, hl] at hnone
    cases hnone
  · refine good_set (fun h => ?_) hlocks ((hsame se).2.trans hl) (hcalls se hn) (hfact se)
    rw [hopens] at h
    cases h

/- The lock of `m` is given back, with no call registered. -/
theorem unlock_sound (hG : Global s) (hh : Holds s t m 0)
    (hm : updateThen s m Session.unlock pc = some mv) (hfree : Free pc) : Sound t s mv :=
  updateThen_sound hG hh hm (fun _ => ⟨rfl, rfl, rfl⟩) (fun _ _ hn _ => hn)
    fun _ _ _ _ => hfree.good _ _

/- The same, after a touch. -/
theorem touchUnlock_sound {now : ℕ} (hG : Global s) (hh : Holds s t m 0)
    (hm : updateThen s m (fun se => (se.touch now).unlock) pc = some mv) (hfree : Free pc) :
    Sound t s mv :=
  updateThen_sound hG hh hm (fun _ => ⟨rfl, rfl, rfl⟩) (fun _ _ hn _ => hn)
    fun _ _ _ _ => hfree.good _ _

/- `remove_if_current` by the task that holds the lock of `m`. -/
theorem removeThen_sound {yes no : (Session → Session) × Pc} (hG : Global s) (hh : Holds s t m 0)
    (hm : removeThen s id m yes no = some mv)
    (hyes : ∀ se, Same se (yes.1 se) ∧ (yes.1 se).activeCalls = se.activeCalls)
    (hno : ∀ se, Same se (no.1 se) ∧ (no.1 se).activeCalls = se.activeCalls)
    (hyesGood : ∀ se, s.sessions m = some se → se.lifecycle = some t → se.activeCalls = 0 →
      s.byId.lookup id = some m →
        Good ((s.removeClosed id se.canonicalPath).set m (yes.1 se)) t yes.2)
    (hnoGood : ∀ se, s.sessions m = some se → se.lifecycle = some t → se.activeCalls = 0 →
      s.byId.lookup id ≠ some m → Good (s.set m (no.1 se)) t no.2) : Sound t s mv := by
  obtain ⟨se, hse, hl, hn⟩ := hh
  simp only [removeThen, hse] at hm
  split at hm
  · rename_i hcur
    cases hm
    rw [removeCurrent_eq hG hse hcur]
    have hrm := removeClosed_keeps hG hse hl hcur
    have hset : Keeps t (s.removeClosed id se.canonicalPath)
        ((s.removeClosed id se.canonicalPath).set m (yes.1 se)) :=
      set_keeps hrm.global hse (.inr hl) (hyes se).1 fun _ => (hyes se).2.trans hn
    exact ⟨hrm.trans hset, hyesGood se hse hl hn hcur, rfl⟩
  · rename_i hcur
    cases hm
    exact ⟨set_keeps hG hse (.inr hl) (hno se).1 fun _ => (hno se).2.trans hn,
      hnoGood se hse hl hn hcur, rfl⟩

/-! ### `open` -/

theorem Found.set {se' : Session} (h : Found s path id m) (hse : s.sessions m = some se)
    (hsame : Same se se') : Found (s.set m se') path id m := by
  obtain ⟨hid, hpath, hcur, hreg⟩ := h
  exact ⟨by rw [idOf_set hse hsame.1]; exact hid, by rw [pathOf_set hse hsame.2.1]; exact hpath,
    hcur, hreg⟩

/- A session that is no longer current has left the path map with the id map. -/
theorem Found.gone (hG : Global s) (h : Found s path id m) (hcur : s.byId.lookup id ≠ some m) :
    s.byPath.lookup path = none := by
  obtain ⟨-, -, hor, hreg⟩ := h
  rcases hreg with hreg | hreg
  · obtain ⟨k, hk, -⟩ := hG.path_id path id hreg
    rcases hor with hor | hor
    · exact absurd hor hcur
    · rw [hor] at hk
      cases hk
  · exact hreg

theorem Found.removed (h : Found s path id m) (hse : s.sessions m = some se) :
    (s.removeClosed id se.canonicalPath).byPath.lookup path = none := by
  have hpath := h.2.1
  rw [Mem.pathOf, hse] at hpath
  cases hpath
  exact AList.lookup_erase _ _

theorem claim_good {r : OpenSessionRequest} (ho : s.openLock = some t)
    (hp : s.byPath.lookup path = none) : Good s t (.openSession r (.claim path)) where
  opens _ := ho
  locks _ h := by cases h
  fact := hp

theorem advanceOpen_sound {r : OpenSessionRequest} {stage : OpenStage} (hG : Global s)
    (hg : Good s t (.openSession r stage)) (hm : advanceOpen s t r stage o = some mv) :
    Sound t s mv := by
  have hf := hg.fact
  cases stage with
  | lock =>
    cases o with
    | canonical c =>
      simp only [advanceOpen] at hm
      split at hm
      · cases hm
      · rename_i hfree
        split at hm <;> cases hm
        · exact .still hG ((done_free _).good _ _)
        · exact ⟨openLock_keeps hG _ (.inl (not_not.mp hfree)),
            ⟨fun _ => rfl, fun _ h => (by cases h), trivial⟩, rfl⟩
    | cancelled =>
      cases hm
      exact .still hG ((done_free _).good _ _)
    | _ => cases hm
  | find path =>
    have ho := hg.opens rfl
    cases o with
    | go =>
      simp only [advanceOpen] at hm
      split at hm <;> cases hm
      · rename_i hnone
        refine .still hG (claim_good ho ?_)
        cases hreg : s.byPath.lookup path with
        | none => rfl
        | some id =>
          obtain ⟨k, hk, -⟩ := hG.path_id path id hreg
          simp [hreg, hk] at hnone
      · rename_i id m hsome
        obtain ⟨id', hreg, hmap⟩ := Option.bind_eq_some_iff.mp hsome
        obtain ⟨m', hcur, heq⟩ := Option.map_eq_some_iff.mp hmap
        cases heq
        obtain ⟨hid, -⟩ := hG.id_path id m hcur
        obtain ⟨k, hk, hpath⟩ := hG.path_id path id hreg
        rw [hcur] at hk
        cases hk
        exact .still hG ⟨fun _ => ho, fun _ h => (by cases h), hid, hpath, .inl hcur, .inl hreg⟩
    | _ => cases hm
  | lifecycle path id m =>
    have ho := hg.opens rfl
    cases o with
    | go =>
      exact lockThen_sound hG hm (fun _ => ho) rfl rfl fun se hse => hf.set hse ⟨rfl, rfl, rfl⟩
    | cancelled =>
      cases hm
      exact .unlockOpen hG ho (done_free _)
    | _ => cases hm
  | current path id m =>
    have ho := hg.opens rfl
    have hh := hg.locks m rfl
    cases o with
    | go =>
      simp only [advanceOpen] at hm
      split at hm
      · rename_i hcur
        cases hm
        refine .still hG ⟨fun _ => ho, fun k hk => ?_, hf, hcur⟩
        cases hk
        exact hh
      · rename_i hcur
        have hnone : s.byPath.lookup path = none := hf.gone hG hcur
        exact updateThen_sound hG hh hm (fun _ => ⟨rfl, rfl, rfl⟩) (fun _ _ hn _ => hn)
          fun se _ _ _ => claim_good ho hnone
    | _ => cases hm
  | live path id m =>
    have ho := hg.opens rfl
    have hh := hg.locks m rfl
    cases o with
    | live alive =>
      cases hm
      cases alive <;> refine .still hG ⟨fun _ => ho, fun k hk => ?_, hf⟩ <;> cases hk <;> exact hh
    | _ => cases hm
  | discard path id m =>
    have ho := hg.opens rfl
    cases o with
    | go =>
      refine removeThen_sound hG (hg.locks m rfl) hm (fun _ => ⟨⟨rfl, rfl, rfl⟩, rfl⟩)
        (fun _ => ⟨⟨rfl, rfl, rfl⟩, rfl⟩) (fun se hse hl hn hcur => ?_)
        (fun se hse hl hn hcur => absurd hf.2 hcur)
      exact good_set (s := s.removeClosed id se.canonicalPath) (fun _ => ho) rfl hl hn
        (hf.1.removed hse)
    | _ => cases hm
  | discardClose path id m =>
    have ho := hg.opens rfl
    cases o with
    | answered err =>
      exact updateThen_sound hG (hg.locks m rfl) hm (fun _ => ⟨rfl, rfl, rfl⟩) (fun _ _ hn _ => hn)
        fun se _ _ _ => claim_good ho hf
    | _ => cases hm
  | touch path id m =>
    have ho := hg.opens rfl
    cases o with
    | go =>
      have hk := openLock_keeps hG none (.inr ho)
      have hs := touchUnlock_sound (s := s.unlockOpen) hk.global (hg.locks m rfl) hm (done_free _)
      exact ⟨hk.trans hs.keeps, hs.good, hs.spawned⟩
    | _ => cases hm
  | claim path =>
    have ho := hg.opens rfl
    cases o with
    | uuid uuid =>
      simp only [advanceOpen] at hm
      split at hm
      · cases hm
        exact .unlockOpen hG ho (done_free _)
      · split at hm <;> cases hm
        · exact .unlockOpen hG ho (done_free _)
        · rename_i hid
          exact .still hG ⟨fun _ => ho, fun _ h => (by cases h), hf, not_not.mp hid⟩
    | _ => cases hm
  | opening path id =>
    have ho := hg.opens rfl
    cases o with
    | answered err =>
      cases err <;> cases hm
      · exact .still hG ⟨fun _ => ho, fun _ h => (by cases h), hf⟩
      · exact .unlockOpen hG ho (done_free _)
    | _ => cases hm
  | warming path id =>
    have ho := hg.opens rfl
    cases o with
    | answered err =>
      cases hm
      exact .still hG ⟨fun _ => ho, fun _ h => (by cases h), hf⟩
    | _ => cases hm
  | insert path id created =>
    have ho := hg.opens rfl
    cases o with
    | go =>
      cases hm
      have hk : Keeps t s (s.register path id r.idleTtlSec created) :=
        register_keeps hG ho hf.1 hf.2
      exact ⟨hk.trans (openLock_keeps hk.global none (.inr ho)), (done_free _).good _ _, rfl⟩
    | _ => cases hm

/-! ### `list` -/

theorem advanceList_sound {stage : ListStage} (hG : Global s) (hg : Good s t (.list stage))
    (hm : advanceList s t stage o = some mv) : Sound t s mv := by
  cases stage with
  | start =>
    cases o with
    | snapshot ms =>
      simp only [advanceList] at hm
      split at hm <;> cases hm
      exact .still hG ((listNext_free _ _).good _ _)
    | _ => cases hm
  | live m rest seen =>
    cases o with
    | live alive =>
      cases alive with
      | true =>
        obtain ⟨id, -, rfl⟩ := Option.map_eq_some_iff.mp hm
        exact .still hG ((listNext_free _ _).good _ _)
      | false =>
        cases hm
        exact .still hG ⟨fun h => (by cases h), fun _ h => (by cases h), trivial⟩
    | _ => cases hm
  | lifecycle m rest seen =>
    cases o with
    | go => exact lockThen_sound hG hm (fun h => (by cases h)) rfl rfl fun _ _ => trivial
    | _ => cases hm
  | recheck m rest seen =>
    cases o with
    | live alive =>
      cases alive with
      | true =>
        obtain ⟨id, -, hm⟩ := Option.bind_eq_some_iff.mp hm
        exact unlock_sound hG (hg.locks m rfl) hm (listNext_free _ _)
      | false =>
        cases hm
        refine .still hG ⟨fun h => (by cases h), fun k hk => ?_, trivial⟩
        cases hk
        exact hg.locks m rfl
    | _ => cases hm
  | remove m rest seen =>
    cases o with
    | go =>
      obtain ⟨id, -, hm⟩ := Option.bind_eq_some_iff.mp hm
      refine removeThen_sound hG (hg.locks m rfl) hm (fun _ => ⟨⟨rfl, rfl, rfl⟩, rfl⟩)
        (fun _ => ⟨⟨rfl, rfl, rfl⟩, rfl⟩) (fun se hse hl hn hcur => ?_)
        (fun se hse hl hn hcur => (listNext_free _ _).good _ _)
      exact good_set (s := s.removeClosed id se.canonicalPath)
        (fun h => (by cases h)) rfl hl hn trivial
    | _ => cases hm
  | closing m rest seen =>
    cases o with
    | answered err => exact unlock_sound hG (hg.locks m rfl) hm (listNext_free _ _)
    | _ => cases hm

/-! ### `close` -/

theorem advanceClose_sound {database : String} {save : Bool} {closer : Closer} {stage : CloseStage}
    (hG : Global s) (hg : Good s t (.close database save closer stage))
    (hm : advanceClose s t database save closer stage o = some mv) : Sound t s mv := by
  cases stage with
  | get =>
    cases o with
    | go =>
      simp only [advanceClose] at hm
      split at hm <;> cases hm
      · exact .still hG ((closeEnd_free _ _).good _ _)
      · exact .still hG ⟨fun h => (by cases h), fun _ h => (by cases h), trivial⟩
    | _ => cases hm
  | lifecycle m =>
    cases o with
    | go => exact lockThen_sound hG hm (fun h => (by cases h)) rfl rfl fun _ _ => trivial
    | _ => cases hm
  | remove m =>
    obtain ⟨se, hse, hl, hn⟩ := hg.locks m rfl
    have hunlock : ∀ exit, Sound t s ⟨s.set m se.unlock, closeEnd closer exit, []⟩ := fun exit =>
      ⟨set_keeps hG hse (.inr hl) ⟨rfl, rfl, rfl⟩ fun _ => hn, (closeEnd_free _ _).good _ _, rfl⟩
    cases o with
    | go =>
      simp only [advanceClose, hse] at hm
      split at hm
      · rename_i heq
        cases heq
        cases hm
        exact hunlock _
      · rename_i hcur heq
        cases heq
        split at hm <;> cases hm
        · rename_i he
          subst he
          refine ⟨removeClosed_keeps hG hse hl hcur,
            ⟨fun h => (by cases h), fun k hk => ?_, trivial⟩,
            rfl⟩
          cases hk
          exact ⟨se, hse, hl, hn⟩
        · exact hunlock _
      · rename_i heq
        cases heq
    | _ => cases hm
  | info m =>
    cases o with
    | go =>
      exact updateLocked_sound hG (hg.locks m rfl) hm (fun _ => ⟨⟨rfl, rfl, rfl⟩, rfl⟩) rfl rfl
        (fun _ hn => hn) fun _ => trivial
    | _ => cases hm
  | closing m =>
    obtain ⟨se, hse, hl, hn⟩ := hg.locks m rfl
    cases o with
    | answered err =>
      simp only [advanceClose, hse] at hm
      cases hm
      exact ⟨set_keeps hG hse (.inr hl) ⟨rfl, rfl, rfl⟩ fun _ => hn, (closeEnd_free _ _).good _ _,
        rfl⟩
    | _ => cases hm

/-! ### `call_native_result` -/

theorem advanceCall_sound {database tool : String} {stage : CallStage} (hG : Global s)
    (hg : Good s t (.call database tool stage))
    (hm : advanceCall tools s t database tool stage o = some mv) : Sound t s mv := by
  cases stage with
  | get =>
    cases o with
    | go =>
      simp only [advanceCall] at hm
      split at hm <;> cases hm
      · exact .still hG ((done_free _).good _ _)
      · rename_i m hcur
        exact .still hG ⟨fun h => (by cases h), fun _ h => (by cases h), hG.registered hcur⟩
    | cancelled =>
      cases hm
      exact .still hG ((done_free _).good _ _)
    | _ => cases hm
  | lifecycle m =>
    cases o with
    | go => exact lockThen_sound hG hm (fun h => (by cases h)) rfl rfl fun _ _ => trivial
    | cancelled =>
      cases hm
      exact .still hG ((done_free _).good _ _)
    | _ => cases hm
  | current m =>
    cases o with
    | go =>
      simp only [advanceCall] at hm
      split at hm
      · rename_i hcur
        exact updateLocked_sound hG (hg.locks m rfl) hm (fun _ => ⟨⟨rfl, rfl, rfl⟩, rfl⟩) rfl rfl
          (fun se hn => by simp [Session.beginCall, Pc.calls, hn]) fun se => hcur
      · exact unlock_sound hG (hg.locks m rfl) hm (done_free _)
    | _ => cases hm
  | access m =>
    have hh : Holds s t m 1 := by simpa [Pc.calls] using hg.locks m rfl
    cases o with
    | go =>
      simp only [advanceCall] at hm
      split at hm
      · exact updateThen_sound hG hh hm (fun _ => ⟨rfl, rfl, rfl⟩)
          (fun se _ hn _ => by simp [Session.touch, Session.endCall, Session.unlock, hn])
          fun _ _ _ _ => (done_free _).good _ _
      · exact updateLocked_sound hG hh hm (fun _ => ⟨⟨rfl, rfl, rfl⟩, rfl⟩) rfl rfl
          (fun se hn => by simp [Session.touch, Session.send, Pc.calls, hn]) fun se => hg.fact
    | _ => cases hm
  | worker m =>
    have hh : Holds s t m 1 := by simpa [Pc.calls] using hg.locks m rfl
    cases o with
    | answered err =>
      cases err with
      | none | some err =>
        exact updateLocked_sound hG hh hm (fun _ => ⟨⟨rfl, rfl, rfl⟩, rfl⟩) rfl rfl
          (fun se hn => by simp [Session.endCall, Pc.calls, hn]) fun se => trivial
    | _ => cases hm
  | failed m err =>
    cases o with
    | live alive =>
      cases alive with
      | true => exact unlock_sound hG (hg.locks m rfl) hm (done_free _)
      | false =>
        cases hm
        refine .still hG ⟨fun h => (by cases h), fun k hk => ?_, trivial⟩
        cases hk
        exact hg.locks m rfl
    | _ => cases hm
  | prune m err =>
    cases o with
    | go =>
      exact removeThen_sound hG (hg.locks m rfl) hm (fun _ => ⟨⟨rfl, rfl, rfl⟩, rfl⟩)
        (fun _ => ⟨⟨rfl, rfl, rfl⟩, rfl⟩) (fun _ _ _ _ _ => (done_free _).good _ _)
        (fun _ _ _ _ _ => (done_free _).good _ _)
    | _ => cases hm
  | touch m =>
    cases o with
    | go => exact touchUnlock_sound hG (hg.locks m rfl) hm (done_free _)
    | _ => cases hm

/-! ### `reap_idle` -/

theorem reapSkip_sound {locked : Bool} {rest : List SessionRef} (hG : Global s)
    (hh : locked = true → Holds s t m 0) (hm : reapSkip s locked m rest = some mv) :
    Sound t s mv := by
  unfold reapSkip at hm
  split at hm
  · rename_i hlocked
    exact unlock_sound hG (hh hlocked) hm (reapNext_free _)
  · cases hm
    exact .still hG ((reapNext_free _).good _ _)

theorem advanceReap_sound {stage : ReapStage} (hG : Global s) (hg : Good s t (.reap stage))
    (hm : advanceReap s t stage o = some mv) : Sound t s mv := by
  cases stage with
  | start =>
    cases o with
    | snapshot ms =>
      simp only [advanceReap] at hm
      split at hm <;> cases hm
      exact .still hG ((reapNext_free _).good _ _)
    | _ => cases hm
  | idle locked m rest =>
    have hh : locked = true → Holds s t m 0 := by
      rintro rfl
      exact hg.locks m rfl
    cases o with
    | go =>
      simp only [advanceReap] at hm
      split at hm
      · cases hm
      · rename_i se hse
        split at hm
        · rename_i hidle
          cases hm
          cases locked with
          | true =>
            refine .still hG ⟨fun h => (by cases h), fun k hk => ?_, se, hse, hidle.1⟩
            cases hk
            exact hh rfl
          | false => exact .still hG ⟨fun h => (by cases h), fun _ h => (by cases h), trivial⟩
        · exact reapSkip_sound hG hh hm
    | _ => cases hm
  | elapsed locked m rest =>
    have hh : locked = true → Holds s t m 0 := by
      rintro rfl
      exact hg.locks m rfl
    cases o with
    | go =>
      simp only [advanceReap] at hm
      split at hm
      · cases hm
      · rename_i se hse
        split at hm
        · rename_i hpast
          cases hm
          cases locked with
          | true =>
            obtain ⟨se', hse', httl⟩ := hg.fact
            rw [hse] at hse'
            cases hse'
            refine .still hG ⟨fun h => (by cases h), fun k hk => ?_, se, hse, httl, hpast⟩
            cases hk
            exact hh rfl
          | false => exact .still hG ⟨fun h => (by cases h), fun _ h => (by cases h), trivial⟩
        · exact reapSkip_sound hG hh hm
    | _ => cases hm
  | lifecycle m rest =>
    cases o with
    | go => exact lockThen_sound hG hm (fun h => (by cases h)) rfl rfl fun _ _ => trivial
    | _ => cases hm
  | remove m rest =>
    obtain ⟨se', hse', httl, hpast⟩ := hg.fact
    cases o with
    | go =>
      obtain ⟨id, -, hm⟩ := Option.bind_eq_some_iff.mp hm
      refine removeThen_sound hG (hg.locks m rfl) hm (fun _ => ⟨⟨rfl, rfl, rfl⟩, rfl⟩)
        (fun _ => ⟨⟨rfl, rfl, rfl⟩, rfl⟩) (fun se hse hl hn hcur => ?_)
        (fun se hse hl hn hcur => (reapNext_free _).good _ _)
      rw [hse] at hse'
      cases hse'
      exact good_set (s := s.removeClosed id se'.canonicalPath) (fun h => (by cases h)) rfl hl hn
        ⟨_, sessions_set_self, httl, hpast⟩
    | _ => cases hm
  | closing m rest =>
    cases o with
    | answered err => exact unlock_sound hG (hg.locks m rfl) hm (reapNext_free _)
    | _ => cases hm

/-! ### Every move -/

theorem advance_sound (hG : Global s) (hg : Good s t pc) (hm : advance tools s t o pc = some mv) :
    Sound t s mv := by
  cases pc with
  | done exit => cases hm
  | openSession r stage => exact advanceOpen_sound hG hg hm
  | list stage => exact advanceList_sound hG hg hm
  | close database save closer stage => exact advanceClose_sound hG hg hm
  | call database tool stage => exact advanceCall_sound hG hg hm
  | reap stage => exact advanceReap_sound hG hg hm
  | shutdown =>
    simp only [advance] at hm
    split at hm
    · split at hm <;> cases hm
      exact .still hG ((closeEnd_free _ _).good _ _)
    · cases hm

/- Which locks a dropped future gives back. -/
theorem dropTask_sound (hG : Global s) (hg : Good s t pc) (hm : dropTask s pc = some mv) :
    Sound t s mv := by
  have hopen : Keeps t s (if pc.opens then s.unlockOpen else s) := by
    split
    · rename_i ho
      exact openLock_keeps hG none (.inr (hg.opens ho))
    · exact Keeps.refl hG
  have hsame : (if pc.opens then s.unlockOpen else s).sessions = s.sessions := by
    split <;> rfl
  unfold dropTask at hm
  dsimp only at hm
  split at hm
  · cases hm
  · cases hlocks : pc.locks with
    | none =>
      rw [hlocks] at hm
      cases hm
      exact ⟨hopen, (done_free _).good _ _, rfl⟩
    | some m =>
      rw [hlocks] at hm
      obtain ⟨se, hse, hl, hn⟩ := hg.locks m hlocks
      have hh : Holds (if pc.opens then s.unlockOpen else s) t m
          (if pc.calls = some m then 1 else 0) := ⟨se, by rw [hsame]; exact hse, hl, hn⟩
      have hs : Sound t (if pc.opens then s.unlockOpen else s) mv := by
        refine updateThen_sound hopen.global hh hm (fun se => ?_) (fun se _ hn _ => ?_)
          fun _ _ _ _ => (done_free _).good _ _
        · by_cases hc : pc.calls = some m <;> simp only [hc, if_true, if_false] <;>
            exact ⟨rfl, rfl, rfl⟩
        · by_cases hc : pc.calls = some m
          · simp [hc, Session.endCall, Session.unlock] at hn ⊢
            omega
          · simp [hc, Session.unlock] at hn ⊢
            exact hn
      exact ⟨hopen.trans hs.keeps, hs.good, hs.spawned⟩

/- What holds of every reachable world. -/
structure Inv (w : World) : Prop where
  fresh : w.Fresh
  good : ∀ u p, w.tasks u = some p → Good w.mem u p
  global : Global w.mem

variable {w w' : World} {a : Act} {u : TaskId}

theorem Inv.lt_next {p : Pc} (hI : Inv w) (h : w.tasks t = some p) : t < w.next := by
  by_contra hle
  rw [hI.fresh t (Nat.le_of_not_lt hle)] at h
  cases h

theorem Inv.resume (hI : Inv w) (hm : Sound t w.mem mv) : Inv (w.resume t mv) := by
  refine ⟨Tasks.resume_fresh w t mv, fun v p hv => ?_, hm.keeps.global⟩
  rcases Tasks.resume_tasks hv with ⟨rfl, rfl⟩ | ⟨hne, hold⟩ | ⟨i, rfl, hi⟩
  · exact hm.good
  · exact (hI.good v p hold).stable (hm.keeps.rely v hne)
  · rw [hm.spawned] at hi
    cases hi

theorem Inv.spawn (hI : Inv w) (hfree : Free pc) : Inv (w.spawn [pc]) := by
  refine ⟨Tasks.spawn_fresh w [pc], fun v p hv => ?_, hI.global⟩
  rcases Tasks.spawn_tasks hv with hold | ⟨i, rfl, hi⟩
  · exact hI.good v p hold
  · rw [List.mem_singleton.mp (List.mem_of_getElem? hi)]
    exact hfree.good _ _

/- `a` resumes or drops task `u`. -/
def Act.Moves (a : Act) (u : TaskId) : Prop := a = .drop u ∨ ∃ o, a = .advance u o

theorem step_advance_iff {w w' : World} : step tools w (.advance t o) = some w' ↔
    ∃ p mv, w.tasks t = some p ∧ advance tools w.mem t o p = some mv ∧ w' = w.resume t mv := by
  simp only [step, Option.map_eq_some_iff, Option.bind_eq_some_iff]
  constructor
  · rintro ⟨mv, ⟨p, hp, hm⟩, rfl⟩
    exact ⟨p, mv, hp, hm, rfl⟩
  · rintro ⟨p, mv, hp, hm, rfl⟩
    exact ⟨mv, ⟨p, hp, hm⟩, rfl⟩

theorem step_drop_iff {w w' : World} : step tools w (.drop t) = some w' ↔
    ∃ p mv, w.tasks t = some p ∧ dropTask w.mem p = some mv ∧ w' = w.resume t mv := by
  simp only [step, Option.map_eq_some_iff, Option.bind_eq_some_iff]
  constructor
  · rintro ⟨mv, ⟨p, hp, hm⟩, rfl⟩
    exact ⟨p, mv, hp, hm, rfl⟩
  · rintro ⟨p, mv, hp, hm, rfl⟩
    exact ⟨mv, ⟨p, hp, hm⟩, rfl⟩

/- The step of a task whose await is known. -/
theorem step_advance_at {w w' : World} {p : Pc} (hp : w.tasks t = some p)
    (h : step tools w (.advance t o) = some w') :
    ∃ mv, advance tools w.mem t o p = some mv ∧ w' = w.resume t mv := by
  obtain ⟨p', mv, hp', hm, hw⟩ := step_advance_iff.mp h
  rw [hp] at hp'
  cases hp'
  exact ⟨mv, hm, hw⟩

theorem tick_rely (s : Mem) (nanos : ℕ) (u : TaskId) :
    Rely u s { s with now := s.now + nanos } where
  now := Nat.le_add_right _ _
  session _ se h := ⟨se, h, rfl, rfl, rfl⟩
  gone _ _ _ h := h
  held _ _ h _ := ⟨h, fun _ h => h⟩
  opening h := ⟨h, fun _ _ h => h, fun _ _ h => h⟩

/- One step: the invariant, and what the tasks that did not move rely on. -/
theorem step_inv (hI : Inv w) (h : step tools w a = some w') :
    Inv w' ∧ Ages w.mem w'.mem ∧ ∀ u, ¬ a.Moves u → Rely u w.mem w'.mem := by
  have hspawn : ∀ pc, w' = w.spawn [pc] → Free pc →
      Inv w' ∧ Ages w.mem w'.mem ∧ ∀ u, ¬ a.Moves u → Rely u w.mem w'.mem := by
    rintro pc rfl hfree
    exact ⟨hI.spawn hfree, Ages.refl _, fun u _ => Rely.refl u _⟩
  cases a with
  | openSession r =>
    simp only [step] at h
    split at h <;> cases h
    · exact hspawn _ rfl (done_free _)
    · exact hspawn _ rfl ⟨rfl, rfl, fun _ => trivial⟩
  | list | close _ _ | call _ _ | reapIdle | shutdown =>
    cases h
    exact hspawn _ rfl ⟨rfl, rfl, fun _ => trivial⟩
  | tick nanos =>
    cases h
    exact ⟨⟨hI.fresh, fun v p hv => (hI.good v p hv).stable (tick_rely _ _ v), ⟨hI.global.path_id,
      hI.global.id_path, hI.global.lt_next, hI.global.idle⟩⟩, (tick_rely _ _ 0).toAges,
      fun u _ => tick_rely _ _ u⟩
  | advance t o =>
    obtain ⟨p, mv, hp, hm, rfl⟩ := step_advance_iff.mp h
    have hs := advance_sound hI.global (hI.good t p hp) hm
    exact ⟨hI.resume hs, hs.keeps.ages, fun u hu => hs.keeps.rely u fun he =>
      hu (.inr ⟨o, by rw [he]⟩)⟩
  | drop t =>
    obtain ⟨p, mv, hp, hm, rfl⟩ := step_drop_iff.mp h
    have hs := dropTask_sound hI.global (hI.good t p hp) hm
    exact ⟨hI.resume hs, hs.keeps.ages,
      fun u hu => hs.keeps.rely u fun he => hu (.inl (by rw [he]))⟩

theorem init_inv : Inv init where
  fresh _ _ := rfl
  good _ _ h := by cases h
  global := ⟨fun _ _ h => (by cases h), fun _ _ h => (by cases h), fun _ h => absurd rfl h,
    fun _ _ h => (by cases h)⟩

theorem run_session_inv {as : List Act} (hI : Inv w) (h : Runs.run (step tools) w as = some w') :
    Inv w' :=
  Runs.run_inv Inv (fun _ _ _ hv hs => (step_inv hv hs).1) hI h

theorem reachable_inv (h : Reachable tools w) : Inv w := by
  obtain ⟨as, has⟩ := h
  exact run_session_inv init_inv has

end IdaHeadless.SessionManager
