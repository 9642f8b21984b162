import IdaHeadless.SessionManager.Invariant

/-!
# The two maps of the session manager are inverse to each other

Whatever opens, closes, calls, listings, reaps and shutdowns interleave, a path has
one session and a session one path. An `open` of a path whose session is live ends
with that session.
-/

namespace IdaHeadless.SessionManager

variable {tools : String → Option String} {w w' : World} {a : Act} {t u : TaskId} {o : Outcome}
  {p q : Pc} {m : SessionRef} {id path : String} {r : OpenSessionRequest}

/- A task that a step does not move waits where it waited. -/
theorem step_kept (hI : Inv w) (h : step tools w a = some w') (hp : w.tasks u = some p)
    (hu : ¬ a.Moves u) : w'.tasks u = some p := by
  have hlt := hI.lt_next hp
  have hspawn : ∀ ps, (Tasks.World.spawn w ps).tasks u = some p :=
    fun ps => (Tasks.spawn_old hlt).trans hp
  cases a with
  | openSession r =>
    simp only [step] at h
    split at h <;> cases h <;> exact hspawn _
  | list | close _ _ | call _ _ | reapIdle | shutdown =>
    cases h
    exact hspawn _
  | tick nanos =>
    cases h
    exact hp
  | advance t o =>
    obtain ⟨q, mv, hq, hm, rfl⟩ := step_advance_iff.mp h
    exact (Tasks.resume_other mv hlt fun he => hu (.inr ⟨o, by rw [he]⟩)).trans hp
  | drop t =>
    obtain ⟨q, mv, hq, hm, rfl⟩ := step_drop_iff.mp h
    exact (Tasks.resume_other mv hlt fun he => hu (.inl (by rw [he]))).trans hp

/- A dropped future ends. -/
theorem dropTask_point {s : Mem} {mv : Move} (hm : dropTask s p = some mv) :
    mv.point = .done .ended := by
  unfold dropTask at hm
  dsimp only at hm
  split at hm
  · cases hm
  · split at hm
    · cases hm
      rfl
    · unfold updateThen at hm
      split at hm <;> cases hm
      rfl

/-! ### An open of a path with a live session -/

/- The session whose `has_live_database` the task awaits. -/
def Pc.asks : Pc → Option SessionRef
  | .openSession _ (.live _ _ m) | .list (.live m _ _) | .list (.recheck m _ _)
  | .call _ _ (.failed m _) => some m
  | _ => none

/- Session `m` is registered as `id` under `path`, and is live whenever a task asks. -/
def StaysLive (path id : String) (m : SessionRef) (w : World) (a : Act) : Prop :=
  w.mem.byPath.lookup path = some id ∧ w.mem.byId.lookup id = some m ∧
    ∀ u alive, a = .advance u (.live alive) → (w.tasks u).bind Pc.asks = some m → alive = true

/- The open `t` is of the canonical path `path`. -/
def Resolves (t : TaskId) (r : OpenSessionRequest) (path : String) (_ : World) (a : Act) : Prop :=
  ∀ c, a = .advance t (.canonical c) → canonicalInputPath r.inputPath c = .ok path

/- Where an open is on its way to the session `m` it is going to return. -/
inductive Reuses (r : OpenSessionRequest) (path id : String) (m : SessionRef) : Pc → Prop where
  | lock : Reuses r path id m (.openSession r .lock)
  | find : Reuses r path id m (.openSession r (.find path))
  | lifecycle : Reuses r path id m (.openSession r (.lifecycle path id m))
  | current : Reuses r path id m (.openSession r (.current path id m))
  | live : Reuses r path id m (.openSession r (.live path id m))
  | touch : Reuses r path id m (.openSession r (.touch path id m))
  | opened : Reuses r path id m (.done (.opened id (reusedMessage path id)))
  | cancelled : Reuses r path id m (.done (.err (cancelledBeforeStart "idb_open")))
  | dropped : Reuses r path id m (.done .ended)

theorem lockThen_point {s : Mem} {mv : Move} (h : lockThen s t m p = some mv) : mv.point = p := by
  unfold lockThen at h
  split at h
  · cases h
  · split at h <;> cases h
    rfl

theorem updateThen_point {s : Mem} {f : Session → Session} {mv : Move}
    (h : updateThen s m f p = some mv) : mv.point = p := by
  unfold updateThen at h
  split at h <;> cases h
  rfl

theorem Reuses.advance {mv : Move} (hp : Reuses r path id m p) (hw : w.tasks t = some p)
    (hlive : StaysLive path id m w (.advance t o)) (hres : Resolves t r path w (.advance t o))
    (hm : advance tools w.mem t o p = some mv) : Reuses r path id m mv.point := by
  obtain ⟨hreg, hcur, hask⟩ := hlive
  cases hp with
  | lock =>
    cases o with
    | canonical c =>
      simp only [SessionManager.advance, advanceOpen, hres c rfl] at hm
      split at hm <;> cases hm
      exact .find
    | cancelled =>
      cases hm
      exact .cancelled
    | _ => cases hm
  | find =>
    cases o with
    | go =>
      simp only [SessionManager.advance, advanceOpen, hreg, hcur, Option.bind_some,
        Option.map_some] at hm
      cases hm
      exact .lifecycle
    | _ => cases hm
  | lifecycle =>
    cases o with
    | go =>
      rw [lockThen_point hm]
      exact .current
    | cancelled =>
      cases hm
      exact .cancelled
    | _ => cases hm
  | current =>
    cases o with
    | go =>
      simp only [SessionManager.advance, advanceOpen, hcur, if_true] at hm
      cases hm
      exact .live
    | _ => cases hm
  | live =>
    cases o with
    | live alive =>
      have halive : alive = true := hask t alive rfl (by rw [hw]; rfl)
      subst halive
      cases hm
      exact .touch
    | _ => cases hm
  | touch =>
    cases o with
    | go =>
      rw [updateThen_point hm]
      exact .opened
    | _ => cases hm
  | opened | cancelled | dropped => cases hm

theorem reuses_step (hI : Inv w) (ht : ∃ p, w.tasks t = some p ∧ Reuses r path id m p)
    (hlive : StaysLive path id m w a) (hres : Resolves t r path w a)
    (h : step tools w a = some w') : ∃ p, w'.tasks t = some p ∧ Reuses r path id m p := by
  obtain ⟨p, hp, hR⟩ := ht
  by_cases hmoves : a.Moves t
  · rcases hmoves with rfl | ⟨o, rfl⟩
    · obtain ⟨q, mv, hq, hm, rfl⟩ := step_drop_iff.mp h
      refine ⟨_, Tasks.resume_self mv (hI.lt_next hp), ?_⟩
      rw [dropTask_point hm]
      exact .dropped
    · obtain ⟨mv, hm, rfl⟩ := step_advance_at hp h
      exact ⟨_, Tasks.resume_self mv (hI.lt_next hp), hR.advance hp hlive hres hm⟩
  · exact ⟨p, step_kept hI h hp hmoves, hR⟩

/- Along a run in which the session of its path stays live, an open is on its way to
that session. -/
theorem reuses_run {as : List Act} (hI : Inv w) (ht : w.tasks t = some (.openSession r .lock))
    (hlive : Runs.Along (step tools) (StaysLive path id m) w as)
    (hres : Runs.Along (step tools) (Resolves t r path) w as)
    (h : Runs.run (step tools) w as = some w') :
    ∃ p, w'.tasks t = some p ∧ Reuses r path id m p := by
  have hboth := Runs.run_inv_along (fun v => Inv v ∧ ∃ p, v.tasks t = some p ∧ Reuses r path id m p)
    (fun v b v' hv hb hs => ⟨(step_inv hv.1 hs).1, reuses_step hv.1 hv.2 hb.1 hb.2 hs⟩)
    ⟨hI, _, ht, .lock⟩ (hlive.and hres) h
  exact hboth.2

/- Task `t` is resumed; what the rest of the run needs is its memory and its await. -/
theorem run_advance {mv : Move} {as : List Act} {Q : World → Prop} (hp : w.tasks t = some p)
    (hlt : t < w.next) (hm : advance tools w.mem t o p = some mv)
    (hrest : ∀ v : World, v.mem = mv.mem → v.tasks t = some mv.point → t < v.next →
      ∃ v', Runs.run (step tools) v as = some v' ∧ Q v') :
    ∃ v', Runs.run (step tools) w (.advance t o :: as) = some v' ∧ Q v' := by
  have hnext : t < (w.resume t mv).next := Nat.lt_of_lt_of_le hlt (Nat.le_add_right _ _)
  obtain ⟨v', hrun, hQ⟩ := hrest (w.resume t mv) rfl (Tasks.resume_self mv hlt) hnext
  exact ⟨v', Runs.run_cons_iff.mpr ⟨_, step_advance_iff.mpr ⟨p, mv, hp, hm, rfl⟩, hrun⟩, hQ⟩

/- Where no lock is in its way, an open of a path with a live session returns it. -/
theorem open_returns_live {c : Except String String} (hI : Inv w)
    (ht : w.tasks t = some (.openSession r .lock)) (hfree : w.mem.openLock = none)
    (hc : canonicalInputPath r.inputPath c = .ok path) (hreg : w.mem.byPath.lookup path = some id)
    (hcur : w.mem.byId.lookup id = some m) (hidle : w.mem.holder m = none) :
    ∃ w', Runs.run (step tools) w [.advance t (.canonical c), .advance t .go, .advance t .go,
        .advance t .go, .advance t (.live true), .advance t .go] = some w' ∧
      w'.tasks t = some (.done (.opened id (reusedMessage path id))) := by
  obtain ⟨hid, -⟩ := hI.global.id_path id m hcur
  obtain ⟨se, hse, -⟩ := Option.map_eq_some_iff.mp hid
  have hunlocked : se.lifecycle = none := by
    rw [Mem.holder, hse] at hidle
    exact hidle
  have hlock : advance tools w.mem t (.canonical c) (.openSession r .lock) =
      some ⟨{ w.mem with openLock := some t }, .openSession r (.find path), []⟩ := by
    simp [advance, advanceOpen, hfree, hc]
  refine run_advance ht (hI.lt_next ht) hlock fun v₁ hv₁ hp₁ hl₁ => ?_
  have hfind : advance tools v₁.mem t .go (.openSession r (.find path)) =
      some ⟨v₁.mem, .openSession r (.lifecycle path id m), []⟩ := by
    simp [advance, advanceOpen, hv₁, hreg, hcur]
  refine run_advance hp₁ hl₁ hfind fun v₂ hv₂ hp₂ hl₂ => ?_
  have hmem₂ : v₂.mem = { w.mem with openLock := some t } := hv₂.trans hv₁
  have htake : advance tools v₂.mem t .go (.openSession r (.lifecycle path id m)) =
      some ⟨v₂.mem.set m (se.lock t), .openSession r (.current path id m), []⟩ := by
    simp [advance, advanceOpen, lockThen, hmem₂, hse, hunlocked]
  refine run_advance hp₂ hl₂ htake fun v₃ hv₃ hp₃ hl₃ => ?_
  have hmem₃ : v₃.mem = Mem.set { w.mem with openLock := some t } m (se.lock t) := by
    rw [hv₃, hmem₂]
  have hcheck : advance tools v₃.mem t .go (.openSession r (.current path id m)) =
      some ⟨v₃.mem, .openSession r (.live path id m), []⟩ := by
    simp [advance, advanceOpen, hmem₃, Mem.set, hcur]
  refine run_advance hp₃ hl₃ hcheck fun v₄ hv₄ hp₄ hl₄ => ?_
  refine run_advance hp₄ hl₄ rfl fun v₅ hv₅ hp₅ hl₅ => ?_
  have hmem₅ : v₅.mem.sessions m = some (se.lock t) := by
    rw [show v₅.mem = v₃.mem from hv₅.trans hv₄, hmem₃]
    exact sessions_set_self
  have hend : advance tools v₅.mem t .go (.openSession r (.touch path id m)) =
      some ⟨v₅.mem.unlockOpen.set m ((se.lock t).touch v₅.mem.now).unlock,
        .done (.opened id (reusedMessage path id)), []⟩ := by
    simp [advance, advanceOpen, updateThen, Mem.unlockOpen, hmem₅]
  refine run_advance hp₅ hl₅ hend fun v₆ hv₆ hp₆ hl₆ => ?_
  exact ⟨v₆, rfl, hp₆⟩

/-! ### The maps -/

theorem sessions_distinct {id' : String} {m' : SessionRef} {s : Mem} (hG : Global s)
    (h : s.byId.lookup id = some m) (h' : s.byId.lookup id' = some m')
    (hshare : m = m' ∨ s.pathOf m = s.pathOf m') : id = id' ∧ m = m' := by
  obtain ⟨hid, path, hpath, hreg⟩ := hG.id_path id m h
  obtain ⟨hid', path', hpath', hreg'⟩ := hG.id_path id' m' h'
  have heq : id = id' := by
    rcases hshare with rfl | hshare
    · rw [hid] at hid'
      exact Option.some.inj hid'
    · rw [hpath, hpath'] at hshare
      cases hshare
      rw [hreg] at hreg'
      exact Option.some.inj hreg'
  subst heq
  rw [h] at h'
  exact ⟨rfl, Option.some.inj h'⟩

/-- In every reachable state the maps are inverse to each other, and an open of a path
with a live session ends with that session. -/
theorem session_maps_inverse (h : Reachable tools w) :
    (∀ path id, w.mem.byPath.lookup path = some id →
      ∃ m, w.mem.byId.lookup id = some m ∧ w.mem.pathOf m = some path) ∧
    (∀ id m, w.mem.byId.lookup id = some m → w.mem.idOf m = some id ∧
      ∃ path, w.mem.pathOf m = some path ∧ w.mem.byPath.lookup path = some id) ∧
    (∀ id id' m m', w.mem.byId.lookup id = some m → w.mem.byId.lookup id' = some m' →
      m = m' ∨ w.mem.pathOf m = w.mem.pathOf m' → id = id' ∧ m = m') ∧
    ∀ t r path id m, w.tasks t = some (.openSession r .lock) →
      (∀ as w', Runs.run (step tools) w as = some w' →
        Runs.Along (step tools) (StaysLive path id m) w as →
        Runs.Along (step tools) (Resolves t r path) w as →
        (∀ i message, w'.tasks t = some (.done (.opened i message)) → i = id) ∧
        ∀ e, w'.tasks t = some (.done (.err e)) → e = cancelledBeforeStart "idb_open") ∧
      ∀ c, canonicalInputPath r.inputPath c = .ok path → w.mem.byPath.lookup path = some id →
        w.mem.byId.lookup id = some m → w.mem.openLock = none → w.mem.holder m = none →
        ∃ w', Runs.run (step tools) w [.advance t (.canonical c), .advance t .go, .advance t .go,
            .advance t .go, .advance t (.live true), .advance t .go] = some w' ∧
          w'.tasks t = some (.done (.opened id (reusedMessage path id))) := by
  have hI := reachable_inv h
  refine ⟨hI.global.path_id, hI.global.id_path,
    fun id id' m m' hm hm' hshare => sessions_distinct hI.global hm hm' hshare,
    fun t r path id m ht => ⟨fun as w' hrun hlive hres => ?_, fun c hc hreg hcur hfree hidle =>
      open_returns_live hI ht hfree hc hreg hcur hidle⟩⟩
  obtain ⟨p, hp, hR⟩ := reuses_run hI ht hlive hres hrun
  refine ⟨fun i message hend => ?_, fun e hend => ?_⟩
  · rw [hp] at hend
    cases hend
    cases hR
    rfl
  · rw [hp] at hend
    cases hend
    cases hR
    rfl

/- A first open registers the session; a second open of the path is under way. -/
def openedTwice : List Act :=
  [.openSession ⟨"/bin/a", "prefer_headless", 600, some "sess-1"⟩,
    .advance 0 (.canonical (.ok "/bin/a")), .advance 0 .go, .advance 0 (.uuid "0"),
    .advance 0 (.answered none), .advance 0 (.answered none), .advance 0 .go,
    .openSession ⟨"/bin/a", "prefer_headless", 600, none⟩]

theorem session_maps_inverse_opened_twice :
    ∃ w, Runs.run (step some) init openedTwice = some w ∧
      (∃ m, w.mem.byId.lookup "sess-1" = some m ∧ w.mem.pathOf m = some "/bin/a") ∧
      ∃ w', Runs.run (step some) w [.advance 1 (.canonical (.ok "/bin/a")), .advance 1 .go,
          .advance 1 .go, .advance 1 .go, .advance 1 (.live true), .advance 1 .go] = some w' ∧
        w'.tasks 1 = some (.done (.opened "sess-1" (reusedMessage "/bin/a" "sess-1"))) := by
  have hrun : (Runs.run (step some) init openedTwice).any (fun w =>
      decide (w.mem.byPath.lookup "/bin/a" = some "sess-1" ∧ w.mem.byId.lookup "sess-1" = some 0 ∧
        w.mem.openLock = none ∧ w.mem.holder 0 = none ∧
        w.tasks 1 =
          some (.openSession ⟨"/bin/a", "prefer_headless", 600, none⟩ .lock))) = true := by
    decide +kernel
  obtain ⟨w, hw, hfacts⟩ := (Option.any_eq_true _ _).mp hrun
  obtain ⟨hreg, hcur, hfree, hidle, ht⟩ := of_decide_eq_true hfacts
  obtain ⟨hpath, -, -, hopen⟩ := session_maps_inverse ⟨_, hw⟩
  exact ⟨w, hw, hpath _ _ hreg,
    (hopen 1 _ "/bin/a" "sess-1" 0 ht).2 (.ok "/bin/a") (by decide +kernel) hreg hcur hfree hidle⟩

end IdaHeadless.SessionManager
