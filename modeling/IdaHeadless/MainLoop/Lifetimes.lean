import IdaHeadless.MainLoop.Step

/-!
# Database lifetimes and their generations

A lifetime is one opening of a database, up to its close. The loop numbers lifetimes
with generations, and a generation names one lifetime of the process for good: the
requests that carry one never reach a database that was opened under another.
-/

namespace IdaHeadless.MainLoop

variable {pathsMatch : String → String → Bool} {s t u : Loop} {r : IdaRequest} {ans : Answers}
  {a : Act} {db : Idb} {g : ℕ} {h : HandlerResult} {op : Option String}

/-! ### What an iteration can do to the open database -/

/- The variables of a lifetime are untouched. -/
structure Kept (s t : Loop) : Prop where
  idb : t.idb = s.idb
  generation : t.databaseGeneration = s.databaseGeneration
  next : t.nextDatabaseGeneration = s.nextDatabaseGeneration
  lifetimes : s.lifetimes ≤ t.lifetimes

/- Nothing was open and a database was opened under the next generation. -/
structure Created (s : Loop) (t : Turn) (db : Idb) : Prop where
  before : s.idb = none
  reply : t.reply = some (.opened db.path (s.nextDatabaseGeneration + 1))
  idb : t.state.idb = some db
  lifetime : db.lifetime = s.lifetimes
  generation : t.state.databaseGeneration = some (s.nextDatabaseGeneration + 1)
  next : t.state.nextDatabaseGeneration = s.nextDatabaseGeneration + 1
  lifetimes : t.state.lifetimes = s.lifetimes + 1

structure Closed (s t : Loop) : Prop where
  idb : t.idb = none
  generation : t.databaseGeneration = none
  next : t.nextDatabaseGeneration = s.nextDatabaseGeneration
  lifetimes : t.lifetimes = s.lifetimes

inductive Change (s : Loop) (t : Turn) : Prop where
  | kept (h : Kept s t.state)
  | created (db : Idb) (h : Created s t db)
  | closed (h : Closed s t.state)
  | ended (h : t.state.phase ≠ .running)

theorem Kept.refl (s : Loop) : Kept s s := ⟨rfl, rfl, rfl, Nat.le_refl _⟩

theorem crashGuarded_kept (op : String) : Kept s (crashGuarded s op h).state := by
  unfold crashGuarded
  split
  · exact Kept.refl s
  · cases h <;> exact ⟨rfl, rfl, rfl, Nat.le_refl _⟩

theorem runHandler_change : Change s (runHandler s op h) := by
  cases op with
  | some op => exact .kept (crashGuarded_kept op)
  | none =>
    cases h with
    | ok | noResult | err e => exact .kept (Kept.refl s)
    | crash signal => exact .ended (by simp [runHandler])

theorem leave_ended : (leave s).phase ≠ .running := by
  unfold leave
  split <;> simp [releaseMcpLock]

/- A database put into `idb` either gets the next generation or is closed again. -/
theorem newGeneration_change (db : Idb) {calls : List IdaCall} (hs : s.idb = none)
    (ht : t.idb = some db) (hdb : db.lifetime = s.lifetimes)
    (hgen : t.databaseGeneration = s.databaseGeneration)
    (hnext : t.nextDatabaseGeneration = s.nextDatabaseGeneration)
    (hlife : t.lifetimes = s.lifetimes + 1) : Change s (newGeneration t db.path calls) := by
  unfold newGeneration
  split
  · refine .created db ⟨hs, ?_, ht, hdb, ?_, ?_, hlife⟩
    · show some (Reply.opened db.path (t.nextDatabaseGeneration + 1)) = _
      rw [hnext]
    · show some (t.nextDatabaseGeneration + 1) = some (s.nextDatabaseGeneration + 1)
      rw [hnext]
    · show t.nextDatabaseGeneration + 1 = s.nextDatabaseGeneration + 1
      rw [hnext]
  · refine .kept ⟨hs.symm, hgen, hnext, ?_⟩
    show s.lifetimes ≤ t.lifetimes
    omega

/- `handle_open` leaves an open database as it is. -/
theorem handleOpen_open (path : String) (cancelled : Bool) (result : OpenResult)
    (hdb : s.idb = some db) :
    ∃ res calls, handleOpen pathsMatch s path cancelled result = (s, res, calls) := by
  unfold handleOpen
  simp only [hdb]
  split
  · exact ⟨_, _, rfl⟩
  · split <;> exact ⟨_, _, rfl⟩

/- With no database open, it fails and leaves everything, or puts a new one into `idb`. -/
theorem handleOpen_closed (path : String) (cancelled : Bool) (result : OpenResult)
    (hdb : s.idb = none) :
    (∃ e calls, handleOpen pathsMatch s path cancelled result = (s, .error e, calls)) ∨
    ∃ dbPath lockPath calls, handleOpen pathsMatch s path cancelled result =
      ({ s with
          idb := some ⟨dbPath, s.lifetimes⟩
          lifetimes := s.lifetimes + 1
          lockFile := true
          lockPath := some lockPath }, .ok dbPath, calls) := by
  unfold handleOpen
  simp only [hdb]
  split
  · exact .inl ⟨_, _, rfl⟩
  · cases result with
    | failed e => exact .inl ⟨_, _, rfl⟩
    | opened dbPath lockPath => exact .inr ⟨_, _, _, rfl⟩

/- An open with a database open is refused, or hands out the generation it has. -/
theorem openArm_open {path : String} {cancel : Bool} (hdb : s.idb = some db)
    (hgen : s.databaseGeneration = some g) :
    (openArm pathsMatch s path cancel ans).state = s := by
  obtain ⟨res, calls, hopen⟩ : ∃ res calls, handleOpen pathsMatch s path
      ((IdaRequest.openDb path cancel).cancelled ans 2) ans.opened = (s, res, calls) :=
    handleOpen_open _ _ _ hdb
  simp only [openArm, hopen]
  split
  · rfl
  · cases res with
    | error e => rfl
    | ok dbPath => simp only [hgen, hdb, Option.isSome_some, if_true]

/- With a database open, only the path of that database is answered with one. -/
theorem openArm_adopts {path p : String} {cancel : Bool} (hdb : s.idb = some db)
    (hreply : (openArm pathsMatch s path cancel ans).reply = some (.opened p g)) :
    pathsMatch db.path path = true := by
  by_contra hno
  simp only [openArm, handleOpen, hdb, hno] at hreply
  split at hreply
  · cases hreply
  · split at hreply <;> rename_i hopen <;> split at hopen <;> cases hopen
    all_goals cases hreply

theorem openArm_closed {path : String} {cancel : Bool} (hdb : s.idb = none) :
    Change s (openArm pathsMatch s path cancel ans) := by
  simp only [openArm]
  split
  · exact .kept (Kept.refl s)
  · split
    · rename_i s' e calls hopen
      rcases handleOpen_closed _ _ _ hdb with ⟨_, _, heq⟩ | ⟨_, _, _, heq⟩ <;>
        cases heq.symm.trans hopen
      exact .kept (Kept.refl s)
    · rename_i s' dbPath calls hopen
      rcases handleOpen_closed _ _ _ hdb with ⟨_, _, heq⟩ | ⟨_, _, _, heq⟩ <;>
        cases heq.symm.trans hopen
      simp only [hdb, Option.isSome_none, Bool.false_eq_true, if_false]
      have hnew : ∀ lockPath calls, Change s (newGeneration
          { s with
            idb := some ⟨dbPath, s.lifetimes⟩
            lifetimes := s.lifetimes + 1
            lockFile := true
            lockPath := some lockPath } dbPath calls) :=
        fun _ _ => newGeneration_change ⟨dbPath, s.lifetimes⟩ hdb rfl rfl rfl rfl rfl
      split <;> exact hnew _ _

/-! ### The invariant -/

/- Between requests a database is open exactly if a generation is set. Generations and
lifetimes come from counters. -/
structure Inv (s : Loop) : Prop where
  open_iff : s.idb.isSome ↔ s.databaseGeneration.isSome
  generation_le : ∀ g, s.databaseGeneration = some g → g ≤ s.nextDatabaseGeneration
  lifetime_lt : ∀ db, s.idb = some db → db.lifetime < s.lifetimes

theorem Inv.generation (hI : Inv s) (hdb : s.idb = some db) :
    ∃ g, s.databaseGeneration = some g :=
  Option.isSome_iff_exists.mp (hI.open_iff.mp (by simp [hdb]))

theorem Inv.idb (hI : Inv s) (hg : s.databaseGeneration = some g) : ∃ db, s.idb = some db :=
  Option.isSome_iff_exists.mp (hI.open_iff.mpr (by simp [hg]))

theorem dispatch_change (hI : Inv s) : Change s (dispatch pathsMatch s r ans) := by
  cases r with
  | openDb path cancel =>
    cases hdb : s.idb with
    | none => exact openArm_closed hdb
    | some db =>
      obtain ⟨g, hg⟩ := hI.generation hdb
      refine .kept ?_
      show Kept s (openArm pathsMatch s path cancel ans).state
      rw [openArm_open hdb hg]
      exact Kept.refl s
  | close save => exact .closed ⟨rfl, rfl, rfl, rfl⟩
  | closeIfGeneration g =>
    simp only [dispatch]
    split
    · exact .closed ⟨rfl, rfl, rfl, rfl⟩
    · exact .kept (Kept.refl s)
  | analysisStatus expected | dscLoadImage image expected =>
    simp only [dispatch, boundArm]
    split
    · exact .kept (Kept.refl s)
    · exact runHandler_change
  | analyzeFuncs cancel | runScript cancel =>
    simp only [dispatch, tokenArm]
    split
    · exact .kept (Kept.refl s)
    · exact runHandler_change
  | tool tool => exact runHandler_change
  | shutdown => exact .ended leave_ended

theorem serve_change (hI : Inv s) : Change s (serve pathsMatch s r ans) := by
  unfold serve
  split
  · exact dispatch_change hI
  · split
    · exact .ended leave_ended
    · exact .kept (Kept.refl s)

theorem turn_change (hI : Inv s) : Change s (turn pathsMatch s r ans) := by
  unfold turn
  split
  · unfold refuseRetired
    split
    · exact .ended leave_ended
    · exact .kept (Kept.refl s)
    · exact .kept (Kept.refl s)
  · split
    · exact serve_change hI
    · unfold initThenServe
      split
      · exact .kept (Kept.refl s)
      · split
        · exact .kept (Kept.refl s)
        · rename_i fault _
          -- The initialization touches none of the variables a change is about.
          have hI' : Inv { s with libInitialized := true, installFault := fault } :=
            ⟨hI.open_iff, hI.generation_le, hI.lifetime_lt⟩
          rcases serve_change hI' with hk | ⟨db, hc⟩ | hc | he
          · exact .kept ⟨hk.idb, hk.generation, hk.next, hk.lifetimes⟩
          · exact .created db
              ⟨hc.before, hc.reply, hc.idb, hc.lifetime, hc.generation, hc.next, hc.lifetimes⟩
          · exact .closed ⟨hc.idb, hc.generation, hc.next, hc.lifetimes⟩
          · exact .ended he

theorem event_change (hI : Inv s) : Change s (event pathsMatch s a) := by
  cases a with
  | request r ans => exact turn_change hI
  | interrupt signal => exact .ended (by simp [event, interruptedShutdown])
  | disconnected => exact .ended leave_ended
  | exitNow =>
    simp only [event]
    split
    · exact .ended (by simp)
    · exact .kept (Kept.refl s)

theorem step_event (h : step pathsMatch s a = some t) :
    s.phase = .running ∧ t = (event pathsMatch s a).state := by
  unfold step at h
  split at h
  · rename_i hrun
    exact ⟨hrun, (Option.some.inj h).symm⟩
  · cases h

theorem Change.inv {t : Turn} (hI : Inv s) (hc : Change s t) (ht : t.state.phase = .running) :
    Inv t.state := by
  cases hc with
  | kept hk =>
    refine ⟨?_, ?_, ?_⟩
    · rw [hk.idb, hk.generation]
      exact hI.open_iff
    · rw [hk.generation, hk.next]
      exact hI.generation_le
    · intro db hdb
      rw [hk.idb] at hdb
      exact Nat.lt_of_lt_of_le (hI.lifetime_lt db hdb) hk.lifetimes
  | created db hc =>
    refine ⟨by simp [hc.idb, hc.generation], ?_, ?_⟩
    · intro g hg
      rw [hc.generation] at hg
      cases hg
      exact Nat.le_of_eq hc.next.symm
    · intro db' hdb'
      rw [hc.idb] at hdb'
      cases hdb'
      rw [hc.lifetime, hc.lifetimes]
      omega
  | closed hc => exact ⟨by simp [hc.idb, hc.generation], by simp [hc.generation], by simp [hc.idb]⟩
  | ended he => exact absurd ht he

/- A run keeps the invariant for as long as the loop runs. -/
theorem step_inv (hI : s.phase = .running → Inv s) (h : step pathsMatch s a = some t)
    (ht : t.phase = .running) : Inv t := by
  obtain ⟨hrun, rfl⟩ := step_event h
  exact (event_change (hI hrun)).inv (hI hrun) ht

theorem start_inv (lib : Bool) (fault : Option String) : Inv (start lib fault) :=
  ⟨by simp [start], fun _ h => (by cases h), fun _ h => (by cases h)⟩

/-! ### A generation names one lifetime -/

/- What `u`, a state of the past, still says about `s`. -/
structure Later (u s : Loop) : Prop where
  granted : ∀ g, u.databaseGeneration = some g → g ≤ s.nextDatabaseGeneration
  opened : ∀ db, u.idb = some db → db.lifetime < s.lifetimes
  same : ∀ g, u.databaseGeneration = some g → s.databaseGeneration = some g → s.idb = u.idb

theorem Inv.later (hI : Inv s) : Later s s :=
  ⟨hI.generation_le, hI.lifetime_lt, fun _ _ _ => rfl⟩

theorem Change.later {t : Turn} (hc : Change s t) (ht : t.state.phase = .running)
    (hu : Later u s) : Later u t.state := by
  cases hc with
  | kept hk =>
    refine ⟨?_, ?_, ?_⟩
    · intro g hg
      rw [hk.next]
      exact hu.granted g hg
    · intro db hdb
      exact Nat.lt_of_lt_of_le (hu.opened db hdb) hk.lifetimes
    · intro g hg hg'
      rw [hk.generation] at hg'
      rw [hk.idb]
      exact hu.same g hg hg'
  | created db hc =>
    refine ⟨?_, ?_, ?_⟩
    · intro g hg
      have hle := hu.granted g hg
      rw [hc.next]
      omega
    · intro db' hdb'
      have hlt := hu.opened db' hdb'
      rw [hc.lifetimes]
      omega
    · -- The new generation is above every one handed out before.
      intro g hg hg'
      rw [hc.generation] at hg'
      cases hg'
      have hle := hu.granted _ hg
      omega
  | closed hc =>
    refine ⟨?_, ?_, ?_⟩
    · intro g hg
      rw [hc.next]
      exact hu.granted g hg
    · intro db hdb
      rw [hc.lifetimes]
      exact hu.opened db hdb
    · intro g _ hg'
      rw [hc.generation] at hg'
      cases hg'
  | ended he => exact absurd ht he

/-! ### Requests that name a generation -/

/- The generation a request is bound to. -/
def IdaRequest.expectedGeneration : IdaRequest → Option ℕ
  | .analysisStatus expected | .dscLoadImage _ expected => expected
  | _ => none

/- `t` differs from `s` at most by the initialization of the library that a first
request finds deferred. -/
structure UpToInit (s t : Loop) : Prop where
  same : ∃ lib fault, t = { s with libInitialized := lib, installFault := fault }
  initialized : s.libInitialized = true → t = s

theorem UpToInit.refl (s : Loop) : UpToInit s s := ⟨⟨_, _, rfl⟩, fun _ => rfl⟩

theorem UpToInit.deferred {fault : Option String} (hlib : ¬ s.libInitialized = true)
    (h : UpToInit { s with libInitialized := true, installFault := fault } t) : UpToInit s t :=
  ⟨h.same, fun hyes => absurd hyes hlib⟩

/- The database a call touches. -/
def IdaCall.database : IdaCall → Option Idb
  | .handler db => db
  | .dropDatabase db _ => some db
  | .initLibrary | .openDatabase _ => none

/- What a bound request does: it runs its handler over the open database of its
generation, or it fails and leaves everything. -/
structure Bound (s : Loop) (g : ℕ) (t : Turn) : Prop where
  touches : ∀ c ∈ t.calls, ∀ db, c.database = some db →
    s.databaseGeneration = some g ∧ s.idb = some db
  refused : s.databaseGeneration ≠ some g →
    (∃ e, t.reply = some (.err e)) ∧ (∀ c ∈ t.calls, c.database = none) ∧ UpToInit s t.state

/- A request that is refused at a gate. -/
theorem Bound.of_refused {t : Turn} {e : ToolError} (hreply : t.reply = some (.err e))
    (hcalls : ∀ c ∈ t.calls, c.database = none) (hstate : t.state = s) : Bound s g t :=
  ⟨fun c hc db hdb => (by rw [hcalls c hc] at hdb; cases hdb),
    fun _ => ⟨⟨e, hreply⟩, hcalls, hstate.symm ▸ UpToInit.refl s⟩⟩

theorem crashGuarded_calls {op : String} {c : IdaCall} (hc : c ∈ (crashGuarded s op h).calls) :
    c = .handler s.idb := by
  unfold crashGuarded at hc
  split at hc
  · cases hc
  · cases h <;> exact List.mem_singleton.mp hc

theorem boundArm_bound {op : String} : Bound s g (boundArm s (some g) op h) := by
  unfold boundArm requireGeneration
  by_cases hg : s.databaseGeneration = some g
  · simp only [hg, if_true]
    refine ⟨?_, fun hne => absurd hg hne⟩
    intro c hc db hdb
    rw [crashGuarded_calls hc] at hdb
    exact ⟨hg, hdb⟩
  · simp only [hg, if_false]
    exact Bound.of_refused rfl (by simp) rfl

/- A bound request has no token and its rejection is an error. -/
theorem bound_request (ans : Answers) (hr : r.expectedGeneration = some g) :
    (∀ check, r.cancelled ans check = false) ∧ (∀ e, reject r e = some (.err e)) ∧
    (∀ s pathsMatch, Bound s g (dispatch pathsMatch s r ans)) ∧
    (∀ s signal, refuseRetired s r signal = ⟨s, some (.err (retiredError signal)), []⟩) := by
  cases r with
  | analysisStatus expected | dscLoadImage image expected =>
    cases hr
    exact ⟨fun _ => rfl, fun _ => rfl, fun _ _ => boundArm_bound, fun _ _ => rfl⟩
  | openDb path cancel | close save | closeIfGeneration g | analyzeFuncs cancel
  | runScript cancel | tool tool | shutdown => cases hr

theorem serve_bound (hr : r.expectedGeneration = some g) :
    Bound s g (serve pathsMatch s r ans) := by
  obtain ⟨-, hreject, hdispatch, -⟩ := bound_request ans hr
  unfold serve
  split
  · exact hdispatch s pathsMatch
  · split
    · cases hr
    · exact Bound.of_refused (hreject _) (by simp) rfl

theorem turn_bound (hr : r.expectedGeneration = some g) : Bound s g (turn pathsMatch s r ans) := by
  obtain ⟨htoken, hreject, -, hretired⟩ := bound_request ans hr
  unfold turn
  split
  · rw [hretired]
    exact Bound.of_refused rfl (by simp) rfl
  · split
    · exact serve_bound hr
    · rename_i hlib
      unfold initThenServe
      simp only [htoken, Bool.false_eq_true, if_false]
      split
      · exact Bound.of_refused (hreject _) (by simp [IdaCall.database]) rfl
      · rename_i fault _
        have hb : Bound { s with libInitialized := true, installFault := fault } g
            (serve pathsMatch { s with libInitialized := true, installFault := fault } r ans) :=
          serve_bound hr
        refine ⟨?_, ?_⟩
        · intro c hc db hdb
          rcases List.mem_cons.mp hc with rfl | hc
          · cases hdb
          · exact hb.touches c hc db hdb
        · intro hne
          obtain ⟨herr, hcalls, hstate⟩ := hb.refused hne
          refine ⟨herr, ?_, hstate.deferred hlib⟩
          intro c hc
          rcases List.mem_cons.mp hc with rfl | hc
          · rfl
          · exact hcalls c hc

/- What `CloseIfGeneration` reports is what it did. -/
structure ClosesIf (s : Loop) (g : ℕ) (t : Turn) : Prop where
  closed : t.reply = some (.closedIf .closed) →
    s.databaseGeneration = some g ∧ t.state.idb = none ∧ t.state.databaseGeneration = none
  kept : t.reply ≠ some (.closedIf .closed) → UpToInit s t.state

theorem ClosesIf.of_refused {t : Turn} {e : ToolError} (hreply : t.reply = some (.err e))
    (hstate : t.state = s) : ClosesIf s g t :=
  ⟨fun hc => (by rw [hreply] at hc; cases hc), fun _ => hstate.symm ▸ UpToInit.refl s⟩

theorem serve_closesIf :
    ClosesIf s g (serve pathsMatch s (.closeIfGeneration g) ans) := by
  unfold serve
  split
  · simp only [dispatch]
    split
    · rename_i hg
      exact ⟨fun _ => ⟨hg, rfl, rfl⟩, fun hne => absurd rfl hne⟩
    · exact ⟨fun hc => (by cases hc), fun _ => UpToInit.refl s⟩
  · exact ClosesIf.of_refused rfl rfl

theorem turn_closesIf : ClosesIf s g (turn pathsMatch s (.closeIfGeneration g) ans) := by
  unfold turn
  split
  · exact ClosesIf.of_refused rfl rfl
  · split
    · exact serve_closesIf
    · rename_i hlib
      unfold initThenServe
      simp only [IdaRequest.cancelled, IdaRequest.hasToken, Bool.false_and, Bool.false_eq_true,
        if_false]
      split
      · exact ClosesIf.of_refused rfl rfl
      · rename_i fault _
        have hc : ClosesIf { s with libInitialized := true, installFault := fault } g
            (serve pathsMatch { s with libInitialized := true, installFault := fault }
              (.closeIfGeneration g) ans) :=
          serve_closesIf
        exact ⟨hc.closed, fun hne => (hc.kept hne).deferred hlib⟩

/- Whoever is answered with a database gets a new one, or the open one by its path. -/
theorem turn_opened {path p : String} {cancel : Bool} (hdb : s.idb = some db)
    (hreply : (turn pathsMatch s (.openDb path cancel) ans).reply = some (.opened p g)) :
    pathsMatch db.path path = true := by
  have hserve : ∀ s' : Loop, s'.idb = some db →
      (serve pathsMatch s' (.openDb path cancel) ans).reply = some (.opened p g) →
      pathsMatch db.path path = true := by
    intro s' hdb' h
    unfold serve at h
    split at h
    · exact openArm_adopts hdb' h
    · cases h
  unfold turn at hreply
  split at hreply
  · cases hreply
  · split at hreply
    · exact hserve s hdb hreply
    · unfold initThenServe at hreply
      split at hreply
      · cases hreply
      · split at hreply
        · cases hreply
        · rename_i fault _
          exact hserve { s with libInitialized := true, installFault := fault } hdb hreply

/-! ### Every run -/

section Runs
variable {lib : Bool} {fault : Option String} {as : List Act}

theorem run_lifetimes (hrun : Runs.run (step pathsMatch) (start lib fault) as = some s)
    (hs : s.phase = .running) : Inv s :=
  Runs.run_inv (fun s => s.phase = .running → Inv s) (fun _ _ _ hI h => step_inv hI h)
    (fun _ => start_inv lib fault) hrun hs

/- Each state the run has passed through is behind the one it ends in. -/
theorem run_later (hrun : Runs.run (step pathsMatch) (start lib fault) as = some s)
    (hs : s.phase = .running) (hu : Runs.Visits (step pathsMatch) (start lib fault) as u) :
    Later u s := by
  refine Runs.run_visited (fun s => s.phase = .running → Inv s)
    (fun u s => s.phase = .running → Later u s) (fun _ _ _ hI h => step_inv hI h)
    (fun s hI hrun => (hI hrun).later) ?_ (fun _ => start_inv lib fault) hrun hu hs
  intro u s a t hI hlater h ht
  obtain ⟨hrun, rfl⟩ := step_event h
  exact (event_change (hI hrun)).later ht (hlater hrun)

end Runs

/-- In every state between two requests: a database is open exactly if a generation is
set; an iteration that opens one gives it a generation above all that the run has
seen; a request bound to a generation runs its handler only over the lifetime that
got this generation, and otherwise fails and changes nothing; and
`CloseIfGeneration` closes only that lifetime, and says so. -/
theorem database_lifetimes {lib : Bool} {fault : Option String} {as : List Act}
    (hrun : Runs.run (step pathsMatch) (start lib fault) as = some s) (hs : s.phase = .running) :
    (s.idb.isSome ↔ s.databaseGeneration.isSome) ∧
    (∀ r ans db, (turn pathsMatch s r ans).state.phase = .running →
      (turn pathsMatch s r ans).state.idb = some db → s.idb ≠ some db →
      ∃ g, (turn pathsMatch s r ans).state.databaseGeneration = some g ∧
        (turn pathsMatch s r ans).reply = some (.opened db.path g) ∧
        ∀ u, Runs.Visits (step pathsMatch) (start lib fault) as u →
          (∀ g', u.databaseGeneration = some g' → g' < g) ∧
          ∀ db', u.idb = some db' → db'.lifetime < db.lifetime) ∧
    (∀ r ans g, r.expectedGeneration = some g →
      (∀ c ∈ (turn pathsMatch s r ans).calls, ∀ db, c.database = some db →
        s.databaseGeneration = some g ∧ s.idb = some db ∧
        ∀ u, Runs.Visits (step pathsMatch) (start lib fault) as u →
          u.databaseGeneration = some g → u.idb = some db) ∧
      (s.databaseGeneration ≠ some g →
        (∃ e, (turn pathsMatch s r ans).reply = some (.err e)) ∧
        (∀ c ∈ (turn pathsMatch s r ans).calls, c.database = none) ∧
        UpToInit s (turn pathsMatch s r ans).state)) ∧
    ∀ g ans,
      ((turn pathsMatch s (.closeIfGeneration g) ans).reply = some (.closedIf .closed) →
        ∃ db, s.databaseGeneration = some g ∧ s.idb = some db ∧
          (turn pathsMatch s (.closeIfGeneration g) ans).state.idb = none ∧
          (turn pathsMatch s (.closeIfGeneration g) ans).state.databaseGeneration = none ∧
          ∀ u, Runs.Visits (step pathsMatch) (start lib fault) as u →
            u.databaseGeneration = some g → u.idb = some db) ∧
      ((turn pathsMatch s (.closeIfGeneration g) ans).reply ≠ some (.closedIf .closed) →
        UpToInit s (turn pathsMatch s (.closeIfGeneration g) ans).state) := by
  have hI := run_lifetimes hrun hs
  have hlater : ∀ u, Runs.Visits (step pathsMatch) (start lib fault) as u → Later u s :=
    fun _ hu => run_later hrun hs hu
  refine ⟨hI.open_iff, ?_, ?_, ?_⟩
  · intro r ans db hphase hdb hne
    have hchange : Change s (turn pathsMatch s r ans) := turn_change hI
    rcases hchange with hk | ⟨db', hc⟩ | hc | he
    · exact absurd (hk.idb.symm.trans hdb) hne
    · obtain rfl : db' = db := Option.some.inj (hc.idb.symm.trans hdb)
      refine ⟨_, hc.generation, hc.reply, ?_⟩
      intro u hu
      refine ⟨?_, ?_⟩
      · intro g' hg'
        have hle := (hlater u hu).granted g' hg'
        omega
      · intro db' hdb'
        rw [hc.lifetime]
        exact (hlater u hu).opened db' hdb'
    · rw [hc.idb] at hdb
      cases hdb
    · exact absurd hphase he
  · intro r ans g hr
    have hb : Bound s g (turn pathsMatch s r ans) := turn_bound hr
    refine ⟨?_, hb.refused⟩
    intro c hc db hdb
    obtain ⟨hg, hidb⟩ := hb.touches c hc db hdb
    exact ⟨hg, hidb, fun u hu hug => ((hlater u hu).same g hug hg).symm.trans hidb⟩
  · intro g ans
    have hc : ClosesIf s g (turn pathsMatch s (.closeIfGeneration g) ans) := turn_closesIf
    refine ⟨?_, hc.kept⟩
    intro hreply
    obtain ⟨hg, hidb, hgen⟩ := hc.closed hreply
    obtain ⟨db, hdb⟩ := hI.idb hg
    exact ⟨db, hg, hdb, hidb, hgen, fun u hu hug => ((hlater u hu).same g hug hg).symm.trans hdb⟩

/- An open that IDA answers with a database at `path`. -/
def opens (path : String) : Act :=
  .request (.openDb path false) ⟨none, .ok none, .opened path path, .ok⟩

def closes : Act := .request (.close true) ⟨none, .ok none, .failed .busy, .ok⟩

/- The database of a background task is closed and another one is opened: the task's next
image load is refused. -/
theorem database_lifetimes_reopened :
    ∃ s, Runs.run (step (· == ·)) (start false none) [opens "a", closes, opens "b"] = some s ∧
      s.databaseGeneration = some 2 ∧
      ∀ ans, UpToInit s (turn (· == ·) s (.dscLoadImage "UIKit" (some 1)) ans).state := by
  have hrun : (Runs.run (step (· == ·)) (start false none) [opens "a", closes, opens "b"]).any
      (fun s => decide (s.phase = .running ∧ s.databaseGeneration = some 2)) = true := by
    decide +kernel
  obtain ⟨s, hs, hfacts⟩ := (Option.any_eq_true _ _).mp hrun
  obtain ⟨hphase, hgen⟩ := of_decide_eq_true hfacts
  obtain ⟨-, -, hbound, -⟩ := database_lifetimes hs hphase
  have hne : s.databaseGeneration ≠ some 1 := by simp [hgen]
  exact ⟨s, hs, hgen, fun ans => ((hbound (.dscLoadImage "UIKit" (some 1)) ans 1 rfl).2 hne).2.2⟩

end IdaHeadless.MainLoop
