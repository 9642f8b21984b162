import IdaHeadless.SessionManager.Maps

/-!
# Calls against closes

The lifecycle lock of a session orders its calls and its closes. The idle reaper
decides under the lock, on the session it will close; a call that waited for the
lock looks at the map again before it goes to the worker.
-/

namespace IdaHeadless.SessionManager

variable {tools : String → Option String} {w w' : World} {a : Act} {t u : TaskId} {o : Outcome}
  {p q : Pc} {m k : SessionRef} {id database tool : String} {s : Mem} {mv : Move}

/- No call is registered on `m` or executed by its worker, and its TTL has passed since
its last access. -/
def Quiet (w : World) (m : SessionRef) : Prop :=
  (∀ u p, w.tasks u = some p → p.calls ≠ some m) ∧
  ∃ se, w.mem.sessions m = some se ∧ se.activeCalls = 0 ∧ se.idleTtlSec ≠ 0 ∧ se.pastTtl w.mem.now

/-! ### The lock excludes -/

theorem calls_locks (h : p.calls = some m) : p.locks = some m := by
  unfold Pc.calls at h
  split at h <;> cases h <;> rfl

/- One task holds the lifecycle lock of a session. -/
theorem lock_unique (hI : Inv w) (hp : w.tasks t = some p) (hq : w.tasks u = some q)
    (hpm : p.locks = some m) (hqm : q.locks = some m) : t = u := by
  obtain ⟨se, hse, hl, -⟩ := (hI.good t p hp).locks m hpm
  obtain ⟨se', hse', hl', -⟩ := (hI.good u q hq).locks m hqm
  rw [hse] at hse'
  cases hse'
  rw [hl] at hl'
  exact Option.some.inj hl'

/- Beside a task that holds the lock and makes no call, no call is registered. -/
theorem quiet_of_locks (hI : Inv w) (hp : w.tasks t = some p) (hlocks : p.locks = some m)
    (hcalls : p.calls = none) (hold : ∃ se, w.mem.sessions m = some se ∧ se.idleTtlSec ≠ 0 ∧
      se.pastTtl w.mem.now) : Quiet w m := by
  obtain ⟨se, hse, httl, hpast⟩ := hold
  obtain ⟨se', hse', -, hn⟩ := (hI.good t p hp).locks m hlocks
  rw [hse] at hse'
  cases hse'
  rw [hcalls] at hn
  refine ⟨fun u q hq hc => ?_, se, hse, hn, httl, hpast⟩
  have heq := lock_unique hI hp hq hlocks (calls_locks hc)
  subst heq
  rw [hp] at hq
  cases hq
  rw [hcalls] at hc
  cases hc

/-! ### What a reaper does -/

/- The session that a reap step takes out of the map and closes. -/
def ReapStage.closes : ReapStage → Option SessionRef
  | .remove m _ | .closing m _ => some m
  | _ => none

theorem reaper_closes_quiet {stage : ReapStage} (hI : Inv w) (ht : w.tasks t = some (.reap stage))
    (hm : stage.closes = some m) : Quiet w m := by
  have hf := (hI.good t _ ht).fact
  cases stage with
  | remove k rest | closing k rest =>
    cases hm
    exact quiet_of_locks hI ht rfl rfl hf
  | start | idle | elapsed | lifecycle => cases hm

/- A write to session `m` leaves what was sent to the others. -/
theorem sentTo_set_other {se : Session} (h : k ≠ m) : (s.set m se).sentTo k = s.sentTo k := by
  unfold Mem.sentTo
  rw [sessions_set_other h]

theorem sentTo_set_same {se se' : Session} (hse : s.sessions m = some se) (h : se'.sent = se.sent) :
    (s.set m se').sentTo k = s.sentTo k := by
  by_cases hk : k = m
  · subst hk
    unfold Mem.sentTo
    rw [sessions_set_self, hse, Option.map_some, Option.map_some, h]
  · exact sentTo_set_other hk

/- What a step leaves alone for session `k`: its entry and its worker. -/
def Untouched (s s' : Mem) (k : SessionRef) : Prop :=
  s'.sentTo k = s.sentTo k ∧ ∀ id, s.byId.lookup id = some k → s'.byId.lookup id = some k

theorem Untouched.refl (s : Mem) (k : SessionRef) : Untouched s s k := ⟨rfl, fun _ h => h⟩

theorem lockThen_untouched (hm : lockThen s t m p = some mv) : Untouched s mv.mem k := by
  unfold lockThen at hm
  split at hm
  · cases hm
  · rename_i se hse
    split at hm <;> cases hm
    exact ⟨sentTo_set_same hse rfl, fun _ h => h⟩

theorem updateThen_untouched {f : Session → Session} (hm : updateThen s m f p = some mv)
    (hf : ∀ se, (f se).sent = se.sent) : Untouched s mv.mem k := by
  unfold updateThen at hm
  split at hm <;> cases hm
  rename_i se hse
  exact ⟨sentTo_set_same hse (hf se), fun _ h => h⟩

theorem removeThen_untouched {yes no : (Session → Session) × Pc} (hk : k ≠ m)
    (hm : removeThen s id m yes no = some mv) : Untouched s mv.mem k := by
  unfold removeThen at hm
  split at hm
  · cases hm
  · split at hm <;> cases hm
    · rename_i hcur
      refine ⟨sentTo_set_other hk, fun i hi => ?_⟩
      have hne : i ≠ id := by
        intro he
        rw [he, hcur] at hi
        exact hk (Option.some.inj hi).symm
      exact (AList.lookup_erase_ne hne).trans hi
    · exact ⟨sentTo_set_other hk, fun _ h => h⟩

theorem reapSkip_untouched {locked : Bool} {rest : List SessionRef}
    (hm : reapSkip s locked m rest = some mv) : Untouched s mv.mem k := by
  unfold reapSkip at hm
  split at hm
  · exact updateThen_untouched hm fun _ => rfl
  · cases hm
    exact .refl s k

/- A reap step leaves every session alone but the one it closes. -/
theorem advanceReap_untouched {stage : ReapStage} (hm : advanceReap s t stage o = some mv)
    (hk : stage.closes ≠ some k) : Untouched s mv.mem k := by
  cases stage with
  | start =>
    cases o with
    | snapshot ms =>
      simp only [advanceReap] at hm
      split at hm <;> cases hm
      exact .refl s k
    | _ => cases hm
  | idle locked m rest | elapsed locked m rest =>
    cases o with
    | go =>
      simp only [advanceReap] at hm
      split at hm
      · cases hm
      · split at hm
        · cases hm
          exact .refl s k
        · exact reapSkip_untouched hm
    | _ => cases hm
  | lifecycle m rest =>
    cases o with
    | go => exact lockThen_untouched hm
    | _ => cases hm
  | remove m rest =>
    cases o with
    | go =>
      obtain ⟨id, -, hm⟩ := Option.bind_eq_some_iff.mp hm
      exact removeThen_untouched (fun he => hk (by rw [he]; rfl)) hm
    | _ => cases hm
  | closing m rest =>
    cases o with
    | answered err => exact updateThen_untouched hm fun _ => rfl
    | _ => cases hm

/-! ### A call whose session is gone -/

/- Where a call is that waited for a session that has been closed meanwhile. -/
inductive Refused (database tool : String) (m : SessionRef) : Pc → Prop where
  | lifecycle : Refused database tool m (.call database tool (.lifecycle m))
  | current : Refused database tool m (.call database tool (.current m))
  | closed : Refused database tool m (.done (.err (closedWhileWaiting database)))
  | cancelled : Refused database tool m (.done (.err (cancelledBeforeStart tool)))
  | dropped : Refused database tool m (.done .ended)

/- Each of its steps leads to the refusal, and none sends anything. -/
theorem Refused.advance (hp : Refused database tool m p) (hgone : s.byId.lookup database ≠ some m)
    (hm : advance tools s t o p = some mv) :
    Refused database tool m mv.point ∧ ∀ k, mv.mem.sentTo k = s.sentTo k := by
  cases hp with
  | lifecycle =>
    cases o with
    | go =>
      rw [lockThen_point hm]
      exact ⟨.current, fun k => (lockThen_untouched hm).1⟩
    | cancelled =>
      cases hm
      exact ⟨.cancelled, fun _ => rfl⟩
    | _ => cases hm
  | current =>
    cases o with
    | go =>
      simp only [SessionManager.advance, advanceCall, if_neg hgone] at hm
      rw [updateThen_point hm]
      exact ⟨.closed, fun k => (updateThen_untouched hm fun _ => rfl).1⟩
    | _ => cases hm
  | closed | cancelled | dropped => cases hm

/- A call that waits for a session which is no longer current: it waits still, or was
refused. -/
def Waits (t : TaskId) (database tool : String) (m : SessionRef) (w : World) : Prop :=
  w.mem.sessions m ≠ none ∧ w.mem.byId.lookup database ≠ some m ∧
    ∃ p, w.tasks t = some p ∧ Refused database tool m p

theorem waits_step (hI : Inv w) (hw : Waits t database tool m w) (h : step tools w a = some w') :
    Waits t database tool m w' := by
  obtain ⟨hm, hgone, p, hp, hR⟩ := hw
  obtain ⟨-, hages, -⟩ := step_inv hI h
  refine ⟨hages.exists hm, fun hcur => hgone (hages.gone database m hm hcur), ?_⟩
  by_cases hmoves : a.Moves t
  · rcases hmoves with rfl | ⟨o, rfl⟩
    · obtain ⟨q, mv, hq, hmv, rfl⟩ := step_drop_iff.mp h
      refine ⟨_, Tasks.resume_self mv (hI.lt_next hp), ?_⟩
      rw [dropTask_point hmv]
      exact .dropped
    · obtain ⟨mv, hmv, rfl⟩ := step_advance_at hp h
      exact ⟨_, Tasks.resume_self mv (hI.lt_next hp), (hR.advance hgone hmv).1⟩
  · exact ⟨p, step_kept hI h hp hmoves, hR⟩

theorem waits_run {as : List Act} (hI : Inv w) (hw : Waits t database tool m w)
    (h : Runs.run (step tools) w as = some w') : Waits t database tool m w' := by
  have hboth := Runs.run_inv (fun v => Inv v ∧ Waits t database tool m v)
    (fun v b v' hv hs => ⟨(step_inv hv.1 hs).1, waits_step hv.1 hv.2 hs⟩) ⟨hI, hw⟩ h
  exact hboth.2

/-! ### A locked session has a task that holds it -/

/- The holder of each lock waits at an await that says so. -/
def Accounted (w : World) : Prop :=
  ∀ k v, w.mem.holder k = some v → ∃ p, w.tasks v = some p ∧ p.locks = some k

/- After a move of `t` from `pc`, the locks of `t` are those of its next await, and the
other locks are as before. -/
def Accounts (t : TaskId) (s : Mem) (pc : Pc) (mv : Move) : Prop :=
  (∀ k, s.holder k = some t → pc.locks = some k) → ∀ k v, mv.mem.holder k = some v →
    if v = t then mv.point.locks = some k else s.holder k = some v

theorem holder_set {se : Session} :
    (s.set m se).holder k = if k = m then se.lifecycle else s.holder k := by
  unfold Mem.holder
  split
  · rename_i h
    rw [h, sessions_set_self]
    rfl
  · rename_i h
    rw [sessions_set_other h]

theorem accounts_still (hmem : mv.mem.sessions = s.sessions) (hp : mv.point.locks = p.locks) :
    Accounts t s p mv := by
  intro hown k v hv
  have hs : s.holder k = some v := by
    unfold Mem.holder at hv ⊢
    rw [← hmem]
    exact hv
  split
  · rename_i he
    subst he
    rw [hp]
    exact hown k hs
  · exact hs

theorem accounts_set (se : Session) (hmem : mv.mem.sessions = (s.set m se).sessions)
    (hp : p.locks = some m ∨ p.locks = none)
    (hl : se.lifecycle = none ∨ (se.lifecycle = some t ∧ mv.point.locks = some m)) :
    Accounts t s p mv := by
  intro hown k v hv
  have hset : (s.set m se).holder k = some v := by
    unfold Mem.holder at hv ⊢
    rw [← hmem]
    exact hv
  rw [holder_set] at hset
  split at hset
  · rename_i hk
    subst hk
    rcases hl with hl | ⟨hl, hpoint⟩ <;> rw [hl] at hset <;> cases hset
    rw [if_pos rfl]
    exact hpoint
  · rename_i hk
    have hne : v ≠ t := by
      rintro rfl
      have hkm := hown k hset
      rcases hp with hp | hp <;> rw [hp] at hkm <;> cases hkm
      exact hk rfl
    rw [if_neg hne]
    exact hset

theorem lockThen_accounts (hm : lockThen s t m q = some mv) (hp : p.locks = none)
    (hq : q.locks = some m) : Accounts t s p mv := by
  have hpoint := lockThen_point hm
  unfold lockThen at hm
  split at hm
  · cases hm
  · split at hm <;> cases hm
    exact accounts_set _ rfl (.inr hp) (.inr ⟨rfl, hq⟩)

/- A write under the lock, which is given back or kept. -/
theorem updateThen_accounts {f : Session → Session} {s' : Mem} (hs : s'.sessions = s.sessions)
    (hg : Good s t p) (hm : updateThen s' m f q = some mv) (hp : p.locks = some m)
    (hf : (∀ se, (f se).lifecycle = none) ∨
      ((∀ se, (f se).lifecycle = se.lifecycle) ∧ q.locks = some m)) : Accounts t s p mv := by
  obtain ⟨se, hse, hl, -⟩ := hg.locks m hp
  simp only [updateThen, hs, hse] at hm
  cases hm
  refine accounts_set (f se) (by simp only [Mem.set, hs]) (.inl hp) ?_
  rcases hf with hf | ⟨hf, hq⟩
  · exact .inl (hf se)
  · exact .inr ⟨(hf se).trans hl, hq⟩

theorem removeThen_accounts {yes no : (Session → Session) × Pc} (hg : Good s t p)
    (hm : removeThen s id m yes no = some mv) (hp : p.locks = some m)
    (hyes : (∀ se, (yes.1 se).lifecycle = none) ∨
      ((∀ se, (yes.1 se).lifecycle = se.lifecycle) ∧ yes.2.locks = some m))
    (hno : (∀ se, (no.1 se).lifecycle = none) ∨
      ((∀ se, (no.1 se).lifecycle = se.lifecycle) ∧ no.2.locks = some m)) : Accounts t s p mv := by
  obtain ⟨se, hse, hl, -⟩ := hg.locks m hp
  simp only [removeThen, hse] at hm
  split at hm <;> cases hm
  · refine accounts_set (yes.1 se) rfl (.inl hp) ?_
    rcases hyes with hf | ⟨hf, hq⟩
    · exact .inl (hf se)
    · exact .inr ⟨(hf se).trans hl, hq⟩
  · refine accounts_set (no.1 se) rfl (.inl hp) ?_
    rcases hno with hf | ⟨hf, hq⟩
    · exact .inl (hf se)
    · exact .inr ⟨(hf se).trans hl, hq⟩

theorem advanceOpen_accounts {r : OpenSessionRequest} {stage : OpenStage}
    (hg : Good s t (.openSession r stage)) (hm : advanceOpen s t r stage o = some mv) :
    Accounts t s (.openSession r stage) mv := by
  cases stage with
  | opening path id =>
    cases o with
    | answered err => cases err <;> cases hm <;> exact accounts_still rfl rfl
    | _ => cases hm
  | lock | find path | claim path | warming path id =>
    cases o <;> simp only [advanceOpen, reduceCtorEq] at hm
    repeat' split at hm
    all_goals cases hm
    all_goals exact accounts_still rfl rfl
  | lifecycle path id m =>
    cases o with
    | go => exact lockThen_accounts hm rfl rfl
    | cancelled =>
      cases hm
      exact accounts_still rfl rfl
    | _ => cases hm
  | current path id m =>
    cases o with
    | go =>
      simp only [advanceOpen] at hm
      split at hm
      · cases hm
        exact accounts_still rfl rfl
      · exact updateThen_accounts rfl hg hm rfl (.inl fun _ => rfl)
    | _ => cases hm
  | live path id m =>
    cases o with
    | live alive =>
      cases hm
      cases alive <;> exact accounts_still rfl rfl
    | _ => cases hm
  | discard path id m =>
    cases o with
    | go =>
      exact removeThen_accounts hg hm rfl (.inr ⟨fun _ => rfl, rfl⟩) (.inr ⟨fun _ => rfl, rfl⟩)
    | _ => cases hm
  | discardClose path id m =>
    cases o with
    | answered err => exact updateThen_accounts rfl hg hm rfl (.inl fun _ => rfl)
    | _ => cases hm
  | touch path id m =>
    have hs : s.unlockOpen.sessions = s.sessions := rfl
    cases o with
    | go => exact updateThen_accounts hs hg hm rfl (.inl fun _ => rfl)
    | _ => cases hm
  | insert path id created =>
    cases o with
    | go =>
      cases hm
      exact accounts_set (m := s.next) ⟨id, path, r.idleTtlSec, created, 0, none, none, []⟩
        rfl (.inr rfl) (.inl rfl)
    | _ => cases hm

theorem advanceList_accounts {stage : ListStage} (hg : Good s t (.list stage))
    (hm : advanceList s t stage o = some mv) : Accounts t s (.list stage) mv := by
  cases stage with
  | start =>
    cases o with
    | snapshot ms =>
      simp only [advanceList] at hm
      split at hm <;> cases hm
      exact accounts_still rfl (listNext_free _ _).locks
    | _ => cases hm
  | live m rest seen =>
    cases o with
    | live alive =>
      cases alive with
      | true =>
        obtain ⟨id, -, rfl⟩ := Option.map_eq_some_iff.mp hm
        exact accounts_still rfl (listNext_free _ _).locks
      | false =>
        cases hm
        exact accounts_still rfl rfl
    | _ => cases hm
  | lifecycle m rest seen =>
    cases o with
    | go => exact lockThen_accounts hm rfl rfl
    | _ => cases hm
  | recheck m rest seen =>
    cases o with
    | live alive =>
      cases alive with
      | true =>
        obtain ⟨id, -, hm⟩ := Option.bind_eq_some_iff.mp hm
        exact updateThen_accounts rfl hg hm rfl (.inl fun _ => rfl)
      | false =>
        cases hm
        exact accounts_still rfl rfl
    | _ => cases hm
  | remove m rest seen =>
    cases o with
    | go =>
      obtain ⟨id, -, hm⟩ := Option.bind_eq_some_iff.mp hm
      exact removeThen_accounts hg hm rfl (.inr ⟨fun _ => rfl, rfl⟩) (.inl fun _ => rfl)
    | _ => cases hm
  | closing m rest seen =>
    cases o with
    | answered err => exact updateThen_accounts rfl hg hm rfl (.inl fun _ => rfl)
    | _ => cases hm

theorem advanceClose_accounts {save : Bool} {closer : Closer} {stage : CloseStage}
    (hg : Good s t (.close database save closer stage))
    (hm : advanceClose s t database save closer stage o = some mv) :
    Accounts t s (.close database save closer stage) mv := by
  cases stage with
  | get =>
    cases o with
    | go =>
      simp only [advanceClose] at hm
      split at hm <;> cases hm
      · exact accounts_still rfl (closeEnd_free _ _).locks
      · exact accounts_still rfl rfl
    | _ => cases hm
  | lifecycle m =>
    cases o with
    | go => exact lockThen_accounts hm rfl rfl
    | _ => cases hm
  | remove m =>
    cases o with
    | go =>
      simp only [advanceClose] at hm
      split at hm
      · cases hm
        exact accounts_set _ rfl (.inl rfl) (.inl rfl)
      · split at hm <;> cases hm
        · exact accounts_still rfl rfl
        · exact accounts_set _ rfl (.inl rfl) (.inl rfl)
      · cases hm
    | _ => cases hm
  | info m =>
    cases o with
    | go => exact updateThen_accounts rfl hg hm rfl (.inr ⟨fun _ => rfl, rfl⟩)
    | _ => cases hm
  | closing m =>
    cases o with
    | answered err =>
      simp only [advanceClose] at hm
      split at hm <;> cases hm
      exact accounts_set _ rfl (.inl rfl) (.inl rfl)
    | _ => cases hm

theorem advanceCall_accounts {stage : CallStage} (hg : Good s t (.call database tool stage))
    (hm : advanceCall tools s t database tool stage o = some mv) :
    Accounts t s (.call database tool stage) mv := by
  cases stage with
  | get =>
    cases o <;> simp only [advanceCall, reduceCtorEq] at hm
    repeat' split at hm
    all_goals cases hm
    all_goals exact accounts_still rfl rfl
  | lifecycle m =>
    cases o with
    | go => exact lockThen_accounts hm rfl rfl
    | cancelled =>
      cases hm
      exact accounts_still rfl rfl
    | _ => cases hm
  | current m =>
    cases o with
    | go =>
      simp only [advanceCall] at hm
      split at hm
      · exact updateThen_accounts rfl hg hm rfl (.inr ⟨fun _ => rfl, rfl⟩)
      · exact updateThen_accounts rfl hg hm rfl (.inl fun _ => rfl)
    | _ => cases hm
  | access m =>
    cases o with
    | go =>
      simp only [advanceCall] at hm
      split at hm
      · exact updateThen_accounts rfl hg hm rfl (.inl fun _ => rfl)
      · exact updateThen_accounts rfl hg hm rfl (.inr ⟨fun _ => rfl, rfl⟩)
    | _ => cases hm
  | worker m =>
    cases o with
    | answered err =>
      cases err <;> exact updateThen_accounts rfl hg hm rfl (.inr ⟨fun _ => rfl, rfl⟩)
    | _ => cases hm
  | failed m err =>
    cases o with
    | live alive =>
      cases alive with
      | true => exact updateThen_accounts rfl hg hm rfl (.inl fun _ => rfl)
      | false =>
        cases hm
        exact accounts_still rfl rfl
    | _ => cases hm
  | prune m err =>
    cases o with
    | go => exact removeThen_accounts hg hm rfl (.inl fun _ => rfl) (.inl fun _ => rfl)
    | _ => cases hm
  | touch m =>
    cases o with
    | go => exact updateThen_accounts rfl hg hm rfl (.inl fun _ => rfl)
    | _ => cases hm

theorem reapSkip_accounts {locked : Bool} {rest : List SessionRef} (hg : Good s t p)
    (hp : p.locks = if locked then some m else none) (hm : reapSkip s locked m rest = some mv) :
    Accounts t s p mv := by
  cases locked with
  | true => exact updateThen_accounts rfl hg hm hp (.inl fun _ => rfl)
  | false =>
    cases hm
    exact accounts_still rfl ((reapNext_free _).locks.trans hp.symm)

theorem advanceReap_accounts {stage : ReapStage} (hg : Good s t (.reap stage))
    (hm : advanceReap s t stage o = some mv) : Accounts t s (.reap stage) mv := by
  cases stage with
  | start =>
    cases o with
    | snapshot ms =>
      simp only [advanceReap] at hm
      split at hm <;> cases hm
      exact accounts_still rfl (reapNext_free _).locks
    | _ => cases hm
  | idle locked m rest | elapsed locked m rest =>
    cases o with
    | go =>
      simp only [advanceReap] at hm
      split at hm
      · cases hm
      · split at hm
        · cases hm
          cases locked <;> exact accounts_still rfl rfl
        · exact reapSkip_accounts hg (by cases locked <;> rfl) hm
    | _ => cases hm
  | lifecycle m rest =>
    cases o with
    | go => exact lockThen_accounts hm rfl rfl
    | _ => cases hm
  | remove m rest =>
    cases o with
    | go =>
      obtain ⟨id, -, hm⟩ := Option.bind_eq_some_iff.mp hm
      exact removeThen_accounts hg hm rfl (.inr ⟨fun _ => rfl, rfl⟩) (.inl fun _ => rfl)
    | _ => cases hm
  | closing m rest =>
    cases o with
    | answered err => exact updateThen_accounts rfl hg hm rfl (.inl fun _ => rfl)
    | _ => cases hm

theorem advance_accounts (hg : Good s t p) (hm : advance tools s t o p = some mv) :
    Accounts t s p mv := by
  cases p with
  | done exit => cases hm
  | openSession r stage => exact advanceOpen_accounts hg hm
  | list stage => exact advanceList_accounts hg hm
  | close database save closer stage => exact advanceClose_accounts hg hm
  | call database tool stage => exact advanceCall_accounts hg hm
  | reap stage => exact advanceReap_accounts hg hm
  | shutdown =>
    simp only [advance] at hm
    split at hm
    · split at hm <;> cases hm
      exact accounts_still rfl (closeEnd_free _ _).locks
    · cases hm

theorem dropTask_accounts (hg : Good s t p) (hm : dropTask s p = some mv) : Accounts t s p mv := by
  have hs : (if p.opens then s.unlockOpen else s).sessions = s.sessions := by
    split <;> rfl
  unfold dropTask at hm
  dsimp only at hm
  split at hm
  · cases hm
  · cases hlocks : p.locks with
    | none =>
      rw [hlocks] at hm
      cases hm
      exact accounts_still hs hlocks.symm
    | some m =>
      rw [hlocks] at hm
      exact updateThen_accounts hs hg hm hlocks (.inl fun _ => rfl)

theorem accounted_resume (hI : Inv w) (hA : Accounted w) (hp : w.tasks t = some p)
    (hm : Accounts t w.mem p mv) : Accounted (w.resume t mv) := by
  have hown : ∀ k, w.mem.holder k = some t → p.locks = some k := by
    intro k hk
    obtain ⟨q, hq, hl⟩ := hA k t hk
    rw [hp] at hq
    cases hq
    exact hl
  intro k v hv
  have hkv := hm hown k v hv
  split at hkv
  · rename_i he
    subst he
    exact ⟨_, Tasks.resume_self mv (hI.lt_next hp), hkv⟩
  · rename_i hne
    obtain ⟨q, hq, hl⟩ := hA k v hkv
    exact ⟨q, (Tasks.resume_other mv (hI.lt_next hq) hne).trans hq, hl⟩

theorem accounted_step (hI : Inv w) (hA : Accounted w) (h : step tools w a = some w') :
    Accounted w' := by
  by_cases hmoves : ∃ v, a.Moves v
  · obtain ⟨v, rfl | ⟨o, rfl⟩⟩ := hmoves
    · obtain ⟨p, mv, hp, hm, rfl⟩ := step_drop_iff.mp h
      exact accounted_resume hI hA hp (dropTask_accounts (hI.good v p hp) hm)
    · obtain ⟨p, mv, hp, hm, rfl⟩ := step_advance_iff.mp h
      exact accounted_resume hI hA hp (advance_accounts (hI.good v p hp) hm)
  · intro k v hv
    have hsame : w'.mem.sessions = w.mem.sessions := by
      cases a with
      | openSession r =>
        simp only [step] at h
        split at h <;> cases h <;> rfl
      | list | close _ _ | call _ _ | reapIdle | shutdown | tick _ =>
        cases h
        rfl
      | advance t o => exact absurd ⟨t, .inr ⟨o, rfl⟩⟩ hmoves
      | drop t => exact absurd ⟨t, .inl rfl⟩ hmoves
    have hold : w.mem.holder k = some v := by
      unfold Mem.holder at hv ⊢
      rw [← hsame]
      exact hv
    obtain ⟨p, hp, hl⟩ := hA k v hold
    exact ⟨p, step_kept hI h hp fun hv => hmoves ⟨v, hv⟩, hl⟩

theorem reachable_accounted (h : Reachable tools w) : Accounted w := by
  obtain ⟨as, has⟩ := h
  have hboth := Runs.run_inv (fun v => Inv v ∧ Accounted v)
    (fun v b v' hv hs => ⟨(step_inv hv.1 hs).1, accounted_step hv.1 hv.2 hs⟩)
    ⟨init_inv, fun k v hv => by cases hv⟩ has
  exact hboth.2

/- The registered calls are those of the task that has the lock. -/
theorem activeCalls_zero (hI : Inv w) (hA : Accounted w)
    (hnone : ∀ u p, w.tasks u = some p → p.calls ≠ some m) : w.mem.activeCalls m = 0 := by
  cases hse : w.mem.sessions m with
  | none =>
    unfold Mem.activeCalls
    rw [hse]
    rfl
  | some se =>
    have hzero : se.activeCalls = 0 := by
      cases hl : se.lifecycle with
      | none => exact hI.global.idle m se hse hl
      | some v =>
        obtain ⟨p, hp, hlocks⟩ := hA m v (by rw [Mem.holder, hse]; exact hl)
        obtain ⟨se', hse', -, hn⟩ := (hI.good v p hp).locks m hlocks
        rw [hse] at hse'
        cases hse'
        rw [if_neg (hnone v p hp)] at hn
        exact hn
    unfold Mem.activeCalls
    rw [hse]
    exact hzero

/-! ### The whole -/

/-- In every reachable state: what the reaper closes is quiet, and it leaves all other
sessions alone; a call that waits for a session which is no longer current sends
nothing from then on; at most one call is registered on a session, and none once its
calls have ended. -/
theorem calls_against_closes (h : Reachable tools w) :
    (∀ t stage, w.tasks t = some (.reap stage) →
      (∀ m, stage.closes = some m → Quiet w m) ∧
      ∀ o w', step tools w (.advance t o) = some w' →
        ∀ k, stage.closes ≠ some k → Untouched w.mem w'.mem k) ∧
    (∀ t database tool m, w.tasks t = some (.call database tool (.lifecycle m)) →
      w.mem.byId.lookup database ≠ some m → ∀ as w', Runs.run (step tools) w as = some w' →
        (∃ p, w'.tasks t = some p ∧ Refused database tool m p) ∧
        ∀ o w'', step tools w' (.advance t o) = some w'' →
          ∀ k, w''.mem.sentTo k = w'.mem.sentTo k) ∧
    (∀ t u p q m, w.tasks t = some p → w.tasks u = some q → p.calls = some m → q.calls = some m →
      t = u) ∧
    ∀ m, (∀ u p, w.tasks u = some p → p.calls ≠ some m) → w.mem.activeCalls m = 0 := by
  have hI := reachable_inv h
  refine ⟨fun t stage ht => ⟨fun m hm => reaper_closes_quiet hI ht hm, fun o w' hs k hk => ?_⟩,
    fun t database tool m ht hgone as w' hrun => ?_, fun t u p q m hp hq hpm hqm =>
      lock_unique hI hp hq (calls_locks hpm) (calls_locks hqm),
    fun m hnone => activeCalls_zero hI (reachable_accounted h) hnone⟩
  · obtain ⟨mv, hm, rfl⟩ := step_advance_at ht hs
    exact advanceReap_untouched hm hk
  · have hexists : w.mem.sessions m ≠ none := (hI.good t _ ht).fact
    obtain ⟨-, hgone', p, hp, hR⟩ := waits_run hI ⟨hexists, hgone, _, ht, .lifecycle⟩ hrun
    refine ⟨⟨p, hp, hR⟩, fun o w'' hs k => ?_⟩
    obtain ⟨mv, hm, rfl⟩ := step_advance_at hp hs
    exact (hR.advance hgone' hm).2 k

/- A call waits behind another call while the session expires; the reaper waits too. -/
def reapedBehindCall : List Act :=
  [.openSession ⟨"/bin/a", "prefer_headless", 1, some "sess-1"⟩,
    .advance 0 (.canonical (.ok "/bin/a")), .advance 0 .go, .advance 0 (.uuid "0"),
    .advance 0 (.answered none), .advance 0 (.answered none), .advance 0 .go,
    .tick 2000000000, .reapIdle, .advance 1 (.snapshot [0]), .advance 1 .go, .advance 1 .go,
    .call "sess-1" "decompile", .advance 2 .go, .advance 1 .go, .advance 1 .go, .advance 1 .go,
    .advance 1 .go]

theorem calls_against_closes_reaped :
    ∃ w, Runs.run (step some) init reapedBehindCall = some w ∧ Quiet w 0 ∧
      ∀ as w', Runs.run (step some) w as = some w' →
        ∃ p, w'.tasks 2 = some p ∧ Refused "sess-1" "decompile" 0 p := by
  have hrun : (Runs.run (step some) init reapedBehindCall).any (fun w =>
      decide (w.tasks 1 = some (.reap (.closing 0 [])) ∧
        w.tasks 2 = some (.call "sess-1" "decompile" (.lifecycle 0)) ∧
        w.mem.byId.lookup "sess-1" ≠ some 0)) = true := by
    decide +kernel
  obtain ⟨w, hw, hfacts⟩ := (Option.any_eq_true _ _).mp hrun
  obtain ⟨hreap, hcall, hgone⟩ := of_decide_eq_true hfacts
  obtain ⟨hreaper, hwaiter, -, -⟩ := calls_against_closes ⟨_, hw⟩
  exact ⟨w, hw, (hreaper 1 _ hreap).1 0 rfl,
    fun as w' h => (hwaiter 2 _ _ _ hcall hgone as w' h).1⟩

end IdaHeadless.SessionManager
