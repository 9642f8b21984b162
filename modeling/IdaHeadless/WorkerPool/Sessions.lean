import IdaHeadless.WorkerPool.Flow

/-!
# What a move may do to one session

The handle of a session is stored by `lease_for_open`, taken by `take_handle` and
cleared by `clear_handle_if_worker`; nothing else writes it. The session object is
dropped once, when no future borrows it.
-/

namespace IdaHeadless.WorkerPool

def Pool.droppedOf (s : Pool) (k : SessionRef) : Option Bool := (s.sessions k).map Session.dropped
def Pool.workerOf (s : Pool) (k : SessionRef) : Option WorkerId :=
  (s.handleOf k).map Handle.workerId

/- A task resumed at `pc` takes session `k` from `s` to `s'`, and goes on to `q`. -/
inductive SessionChange (pc : Pc) (s s' : Pool) (q : Pc) (k : SessionRef) : Prop where
  | same (handle : s'.handleOf k = s.handleOf k) (dropped : s'.droppedOf k = s.droppedOf k)
  | stored (timeout : ℕ) (w : WorkerId) (sessionId : String)
      (pc_eq : (∃ rest active deadIds, pc = .lease k timeout (.scan (w :: rest) active deadIds)) ∨
        pc = .lease k timeout (.install w none))
      (handle : s'.handleOf k = some ⟨sessionId, w⟩) (dropped : s'.droppedOf k = s.droppedOf k)
  | taken (save detached : Bool) (h : Handle) (pc_eq : pc = .takeHandle k save detached)
      (before : s.handleOf k = some h) (next : q = .release h save .lock)
      (handle : s'.handleOf k = none) (dropped : s'.droppedOf k = s.droppedOf k)
  | cleared (h : Handle) (retire : Bool) (err : ToolError)
      (pc_eq : pc = .dispatchClear k h retire err)
      (before : s.workerOf k = some h.workerId)
      (next : q = if retire then .retire h.workerId (.dispatch k h.sessionId err) .take
        else .done (.err err))
      (handle : s'.handleOf k = none) (dropped : s'.droppedOf k = s.droppedOf k)

variable {cfg : Config} {s s' : Pool} {t : TaskId} {o : Outcome} {m : Move} {pc q : Pc}
  {k j : SessionRef} {w : WorkerId} {se se' : Session}

theorem droppedOf_eq (h : s.sessions k = some se) : s.droppedOf k = some se.dropped := by
  unfold Pool.droppedOf
  rw [h]
  rfl

theorem droppedOf_setSession : (s.setSession k se).droppedOf j =
    if j = k then some se.dropped else s.droppedOf j := by
  unfold Pool.setSession Pool.droppedOf
  by_cases h : j = k <;> simp [h]

theorem SessionChange.of_sessions (h : s'.sessions = s.sessions) : SessionChange pc s s' q k :=
  .same (by unfold Pool.handleOf; rw [h]) (by unfold Pool.droppedOf; rw [h])

/- Writes that leave the sessions of `s'` alone do not matter, before or after. -/
theorem SessionChange.frame {r r' : Pool} (hc : SessionChange pc s s' q k)
    (h : r.sessions = s.sessions) (h' : r'.sessions = s'.sessions) : SessionChange pc r r' q k := by
  have hh : r.handleOf k = s.handleOf k := by unfold Pool.handleOf; rw [h]
  have hd : r.droppedOf k = s.droppedOf k := by unfold Pool.droppedOf; rw [h]
  have hh' : r'.handleOf k = s'.handleOf k := by unfold Pool.handleOf; rw [h']
  have hd' : r'.droppedOf k = s'.droppedOf k := by unfold Pool.droppedOf; rw [h']
  cases hc with
  | same handle dropped => exact .same (by rw [hh', hh, handle]) (by rw [hd', hd, dropped])
  | stored timeout w sessionId pc_eq handle dropped =>
    exact .stored timeout w sessionId pc_eq (hh'.trans handle) (by rw [hd', hd, dropped])
  | taken save detached h pc_eq before next handle dropped =>
    exact .taken save detached h pc_eq (hh.trans before) next (hh'.trans handle)
      (by rw [hd', hd, dropped])
  | cleared h retire err pc_eq before next handle dropped =>
    have hw : r.workerOf k = some h.workerId := by
      unfold Pool.workerOf
      rw [hh]
      exact before
    exact .cleared h retire err pc_eq hw next (hh'.trans handle) (by rw [hd', hd, dropped])

/- A write to session `j`: only the change of `j` itself is left to classify. -/
theorem SessionChange.setSession (hself : SessionChange pc s (s.setSession j se) q j) :
    SessionChange pc s (s.setSession j se) q k := by
  by_cases h : k = j
  · rw [h]
    exact hself
  · exact .same (by rw [handleOf_setSession, if_neg h]) (by rw [droppedOf_setSession, if_neg h])

theorem SessionChange.touch (hse : s.sessions j = some se) (hhandle : se'.handle = se.handle)
    (hdropped : se'.dropped = se.dropped) : SessionChange pc s (s.setSession j se') q k := by
  refine .setSession (.same ?_ ?_)
  · rw [handleOf_setSession, if_pos rfl, handleOf_eq hse, hhandle]
  · rw [droppedOf_setSession, if_pos rfl, droppedOf_eq hse, hdropped]

theorem SessionChange.unlockHandle : SessionChange pc s (s.unlockHandle j) q k := by
  cases hse : s.sessions j with
  | none =>
    refine .of_sessions (funext fun i => ?_)
    by_cases h : i = j
    · simp [Pool.unlockHandle, h, hse]
    · simp [Pool.unlockHandle, h]
  | some se =>
    rw [unlockHandle_eq hse]
    exact .touch hse rfl rfl

theorem scanNext_session {timeout active : ℕ} {rest deadIds : List WorkerId} :
    SessionChange pc s (scanNext cfg s j timeout rest active deadIds).mem q k := by
  unfold scanNext
  split
  · exact .of_sessions rfl
  · split
    · exact SessionChange.unlockHandle.frame (s := (s.forget deadIds).unlockInner) rfl rfl
    · exact .of_sessions rfl

theorem leased_session {timeout : ℕ} (hse : s.sessions j = some se)
    (hpc : (∃ rest active deadIds, pc = .lease j timeout (.scan (w :: rest) active deadIds)) ∨
      pc = .lease j timeout (.install w none)) :
    SessionChange pc s (leased s j se timeout w).mem q k := by
  refine .setSession (.stored timeout w se.sessionId hpc ?_ ?_)
  · rw [handleOf_setSession, if_pos rfl]
  · rw [droppedOf_setSession, if_pos rfl, droppedOf_eq hse]

theorem lease_session {timeout : ℕ} {stage : LeaseStage}
    (hm : LeaseMove cfg s t j timeout stage o m) :
    SessionChange (.lease j timeout stage) s m.mem m.point k := by
  cases hm with
  | locked se session free handle => exact .touch session rfl rfl
  | scans free => exact scanNext_session.frame (s := s.lockInner t) rfl rfl
  | foundDead w rest active deadIds slot found dead => exact scanNext_session
  | foundBusy w rest active deadIds slot found live busy => exact scanNext_session
  | granted w rest active deadIds slot se found idle session =>
    refine (leased_session ?_ (.inl ⟨rest, active, deadIds, rfl⟩)).frame ?_ rfl
    · exact session
    · rfl
  | installed id se free session =>
    exact (leased_session (s := s.finishReservation id true) session (.inr rfl)).frame rfl rfl
  | failed id err free =>
    exact SessionChange.unlockHandle.frame (s := s.finishReservation id false) rfl rfl
  | held | spawned | spawnFailed => exact .of_sessions rfl

theorem retireDone_sessions {ctx : RetireCtx} : (retireDone s w ctx).mem.sessions = s.sessions := by
  unfold retireDone
  dsimp only
  split <;> rfl

theorem retireReplenish_sessions {ctx : RetireCtx} :
    (retireReplenish s w ctx).mem.sessions = s.sessions := by
  unfold retireReplenish
  split
  · rfl
  · exact retireDone_sessions

theorem retire_sessions {ctx : RetireCtx} {stage : RetireStage}
    (hm : RetireMove cfg s w ctx stage o m) : m.mem.sessions = s.sessions := by
  cases hm with
  | forgottenDead free => exact retireReplenish_sessions
  | finished => exact retireReplenish_sessions
  | enough satisfied => exact retireDone_sessions
  | failed id err free => exact retireDone_sessions
  | _ => rfl

theorem reap_sessions {started : ℕ} {stage : ReapStage}
    (hm : ReapMove cfg s t w started stage o m) : m.mem.sessions = s.sessions := by
  have hcount : ∀ s' rest live, s'.sessions = s.sessions →
      (countNext cfg s' w started rest live).mem.sessions = s.sessions := by
    intro s' rest live hs
    unfold countNext
    split
    · exact hs
    · split <;> exact hs
  cases hm with
  | counts free => exact hcount _ _ _ rfl
  | counted c rest live slot found => exact hcount _ _ _ rfl
  | _ => rfl

theorem single_session (hm : SingleMove s pc m) : SessionChange pc s m.mem m.point k := by
  cases hm with
  | cleared j h retire err se session free =>
    unfold Session.clearHandleIfWorker
    split
    · rename_i hw
      have hbefore : s.workerOf j = some h.workerId := by
        unfold Pool.workerOf
        rw [handleOf_eq session]
        exact hw
      refine .setSession (.cleared h retire err rfl hbefore rfl ?_ ?_)
      · rw [handleOf_setSession, if_pos rfl]
      · rw [droppedOf_setSession, if_pos rfl, droppedOf_eq session]
    · exact .touch session rfl rfl
  | taken j save detached se h session free handle =>
    refine .setSession (.taken save detached h rfl ?_ rfl ?_ ?_)
    · rw [handleOf_eq session, handle]
    · rw [handleOf_setSession, if_pos rfl]
    · rw [droppedOf_setSession, if_pos rfl, droppedOf_eq session]
  | _ => exact .of_sessions rfl

theorem advance_session (hm : advance cfg s t o pc = some m) (k : SessionRef) :
    SessionChange pc s m.mem m.point k := by
  cases advance_moves hm with
  | warm left stage move => cases move <;> exact .of_sessions rfl
  | lease j timeout stage move => exact lease_session move
  | call j h caller timeout stage move => cases move <;> exact .of_sessions rfl
  | release h save stage move => cases move <;> exact .of_sessions rfl
  | retire w ctx stage move => exact .of_sessions (retire_sessions move)
  | reap w started stage move => exact .of_sessions (reap_sessions move)
  | single outcome move => exact single_session move

/- A dropped future writes no handle. -/
theorem dropTask_session (hm : dropTask s t pc = some m) (k : SessionRef) :
    m.mem.handleOf k = s.handleOf k ∧ m.mem.droppedOf k = s.droppedOf k := by
  have hunlock : ∀ r : Pool, r.sessions = s.sessions → ∀ j,
      (r.unlockHandle j).handleOf k = s.handleOf k ∧
        (r.unlockHandle j).droppedOf k = s.droppedOf k := by
    intro r hr j
    have hc : SessionChange (.done .ok) s (r.unlockHandle j) (.done .ok) k :=
      SessionChange.unlockHandle.frame hr.symm rfl
    cases hc with
    | same handle dropped => exact ⟨handle, dropped⟩
    | stored _ _ _ pc_eq => rcases pc_eq with ⟨_, _, _, h⟩ | h <;> cases h
    | taken _ _ _ pc_eq | cleared _ _ _ pc_eq => cases pc_eq
  unfold dropTask at hm
  split at hm <;> cases hm
  all_goals first | exact ⟨rfl, rfl⟩ | exact hunlock _ rfl _

/-! ### Every step -/

variable {own : Own} {x x' : World} {a : Act}

theorem SessionChange.dropped_eq (hc : SessionChange pc s s' q k) :
    s'.droppedOf k = s.droppedOf k := by
  cases hc with
  | same _ dropped | stored _ _ _ _ _ dropped | taken _ _ _ _ _ _ _ dropped
  | cleared _ _ _ _ _ _ _ dropped => exact dropped

/- Only a resumed task writes a handle. -/
theorem step_handle (hI : Inv cfg own x) (h : step cfg x a = some x') (ha : ∀ t o, a ≠ .advance t o)
    (k : SessionRef) : x'.mem.handleOf k = x.mem.handleOf k := by
  cases a with
  | newSession sessionId =>
    simp only [step] at h
    split at h <;> cases h
    have hnone : x.mem.sessions x.mem.nextSession = none := by
      by_contra hne
      exact absurd (hI.global.session_lt _ hne) (Nat.lt_irrefl _)
    have hset : (x.mem.addSession sessionId).handleOf k =
        if k = x.mem.nextSession then none else x.mem.handleOf k := handleOf_setSession
    rw [hset]
    split
    · rename_i hk
      rw [hk, Pool.handleOf, hnone]
      rfl
    · rfl
  | openObserved j timeoutSecs | callTool j tool timeoutSecs | closeWithSave j save =>
    rw [start_mem h]
    rfl
  | dropSession j =>
    simp only [step] at h
    split at h
    · cases h
    · rename_i se hse
      split at h <;> cases h
      simp only [Tasks.spawn_mem]
      rw [handleOf_setSession]
      split
      · rename_i hk
        rw [hk, handleOf_eq hse]
      · rfl
  | shutdownAll =>
    simp only [step] at h
    split at h <;> cases h
    rfl
  | tick =>
    cases h
    rfl
  | advance t o => exact absurd rfl (ha t o)
  | drop t =>
    obtain ⟨pc, m, hpc, hm, rfl⟩ := step_drop_iff.mp h
    exact (dropTask_session hm k).1

theorem start_alive {p : Pc} (h : start x k p = some x') : x.mem.droppedOf k = some false := by
  unfold start at h
  split at h
  · cases h
  · rename_i se hse
    split at h
    · cases h
    · rename_i hd
      rw [droppedOf_eq hse, Bool.eq_false_of_not_eq_true hd]

/- A session is dropped by `Drop` alone, when no future borrows it. -/
theorem step_dropped (h : step cfg x a = some x')
    (hk : x.mem.droppedOf k = some false) :
    x'.mem.droppedOf k = some false ∨
      ((∀ t < x.next, (x.tasks t).bind Pc.borrows ≠ some k) ∧
        x'.tasks x.next = some (.takeHandle k true true)) := by
  cases a with
  | newSession sessionId =>
    simp only [step] at h
    split at h <;> cases h
    left
    have hset : (x.mem.addSession sessionId).droppedOf k =
        if k = x.mem.nextSession then some false else x.mem.droppedOf k := droppedOf_setSession
    rw [hset]
    split
    · rfl
    · exact hk
  | openObserved j timeoutSecs | callTool j tool timeoutSecs | closeWithSave j save =>
    rw [start_mem h]
    exact .inl hk
  | dropSession j =>
    simp only [step] at h
    split at h
    · cases h
    · rename_i se hse
      split at h
      · cases h
      · rename_i hfree
        cases h
        rw [not_or] at hfree
        by_cases hkj : k = j
        · subst hkj
          refine .inr ⟨fun t ht hb => hfree.2 ⟨t, ht, hb⟩, ?_⟩
          exact Tasks.spawn_new (w := { x with mem := _ }) (i := 0) rfl
        · left
          simp only [Tasks.spawn_mem]
          rw [droppedOf_setSession, if_neg hkj]
          exact hk
  | shutdownAll =>
    simp only [step] at h
    split at h <;> cases h
    exact .inl hk
  | tick =>
    cases h
    exact .inl hk
  | advance t o =>
    obtain ⟨pc, m, hpc, hm, rfl⟩ := step_advance_iff.mp h
    exact .inl ((advance_session hm k).dropped_eq.trans hk)
  | drop t =>
    obtain ⟨pc, m, hpc, hm, rfl⟩ := step_drop_iff.mp h
    exact .inl ((dropTask_session hm k).2.trans hk)

end IdaHeadless.WorkerPool
