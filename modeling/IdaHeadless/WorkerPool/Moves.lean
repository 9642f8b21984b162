import IdaHeadless.WorkerPool.Step

/-!
# Everything a resumed task can do

One constructor for each branch of the transitions that does not block, with the
guards under which the branch is taken. The transitions are case-split here and
nowhere else: what is proved of every move is proved by cases of these.
-/

namespace IdaHeadless.WorkerPool

inductive WarmMove (s : Pool) : ℕ → WarmStage → Outcome → Move → Prop where
  | serves : WarmMove s 0 .reserve .go ⟨{ s with serving := true }, .done .ok, []⟩
  | reserves (left : ℕ) (free : s.inner = none) :
      WarmMove s (left + 1) .reserve .go ⟨s.reserve, .warm left (.spawn s.nextId), []⟩
  | spawned (left : ℕ) (id : WorkerId) :
      WarmMove s left (.spawn id) .spawned
        ⟨s.setSlot id (Slot.fresh .idle s.now), .warm left (.install id none), []⟩
  | spawnFailed (left : ℕ) (id : WorkerId) (started : Bool) (detail : String) :
      WarmMove s left (.spawn id) (.spawnFailed started detail)
        ⟨s, .warm left (.install id (some (spawnError id started detail))), []⟩
  | installed (left : ℕ) (id : WorkerId) (free : s.inner = none) :
      WarmMove s left (.install id none) .go
        ⟨s.finishReservation id true, .warm left .reserve, []⟩
  | failed (left : ℕ) (id : WorkerId) (err : ToolError) (free : s.inner = none) :
      WarmMove s left (.install id (some err)) .go
        ⟨s.finishReservation id false, .done (.err err), []⟩

inductive LeaseMove (cfg : Config) (s : Pool) (t : TaskId) (k : SessionRef) (timeout : ℕ) :
    LeaseStage → Outcome → Move → Prop where
  | held (se : Session) (h : Handle) (session : s.sessions k = some se)
      (free : se.handleLock = none) (handle : se.handle = some h) :
      LeaseMove cfg s t k timeout .handle .go ⟨s, .call k h (.openObserved false) timeout .lock, []⟩
  | locked (se : Session) (session : s.sessions k = some se) (free : se.handleLock = none)
      (handle : se.handle = none) :
      LeaseMove cfg s t k timeout .handle .go
        ⟨s.setSession k { se with handleLock := some t }, .lease k timeout .inner, []⟩
  | scans (free : s.inner = none) :
      LeaseMove cfg s t k timeout .inner .go
        (scanNext cfg (s.lockInner t) k timeout s.children s.spawning.card [])
  | foundDead (w : WorkerId) (rest : List WorkerId) (active : ℕ) (deadIds : List WorkerId)
      (slot : Slot) (found : s.slots w = some slot) (dead : slot.state = .dead) :
      LeaseMove cfg s t k timeout (.scan (w :: rest) active deadIds) .go
        (scanNext cfg s k timeout rest active (deadIds ++ [w]))
  | granted (w : WorkerId) (rest : List WorkerId) (active : ℕ) (deadIds : List WorkerId)
      (slot : Slot) (se : Session) (found : s.slots w = some slot) (idle : slot.state = .idle)
      (session : s.sessions k = some se) :
      LeaseMove cfg s t k timeout (.scan (w :: rest) active deadIds) .go
        (leased
          (s.setSlot w { slot with state := .leased se.sessionId, lastUsed := s.now }).unlockInner
          k se timeout w)
  | foundBusy (w : WorkerId) (rest : List WorkerId) (active : ℕ) (deadIds : List WorkerId)
      (slot : Slot) (found : s.slots w = some slot) (live : slot.state ≠ .dead)
      (busy : slot.state ≠ .idle) :
      LeaseMove cfg s t k timeout (.scan (w :: rest) active deadIds) .go
        (scanNext cfg s k timeout rest (active + 1) deadIds)
  | spawned (id : WorkerId) (se : Session) (session : s.sessions k = some se) :
      LeaseMove cfg s t k timeout (.spawn id) .spawned
        ⟨s.setSlot id (Slot.fresh (.leased se.sessionId) s.now),
          .lease k timeout (.install id none), []⟩
  | spawnFailed (id : WorkerId) (started : Bool) (detail : String) :
      LeaseMove cfg s t k timeout (.spawn id) (.spawnFailed started detail)
        ⟨s, .lease k timeout (.install id (some (spawnError id started detail))), []⟩
  | installed (id : WorkerId) (se : Session) (free : s.inner = none)
      (session : s.sessions k = some se) :
      LeaseMove cfg s t k timeout (.install id none) .go
        (leased (s.finishReservation id true) k se timeout id)
  | failed (id : WorkerId) (err : ToolError) (free : s.inner = none) :
      LeaseMove cfg s t k timeout (.install id (some err)) .go
        ⟨(s.finishReservation id false).unlockHandle k, .done (.err err), []⟩

inductive CallMove (s : Pool) (t : TaskId) (k : SessionRef) (h : Handle) (caller : Caller)
    (timeout : ℕ) : CallStage → Outcome → Move → Prop where
  | locked (slot : Slot) (found : s.slots h.workerId = some slot) (free : slot.callLock = none) :
      CallMove s t k h caller timeout .lock .go
        ⟨s.setSlot h.workerId { slot with callLock := some t },
          .call k h caller timeout .child, []⟩
  | sent (slot : Slot) (found : s.slots h.workerId = some slot)
      (leased : slot.state = .leased h.sessionId) :
      CallMove s t k h caller timeout .child .go
        ⟨s.setSlot h.workerId { slot with sent := slot.sent ++ [.tool h.sessionId caller.tool] },
          .call k h caller timeout .await, []⟩
  | refused (slot : Slot) (found : s.slots h.workerId = some slot)
      (other : slot.state ≠ .leased h.sessionId) :
      CallMove s t k h caller timeout .child .go
        ⟨s.unlockCall h.workerId,
          callErrPc k h caller (notLeasedError h caller.tool slot.state), []⟩
  | answered (err : Option ToolError) (info : Option String) :
      CallMove s t k h caller timeout .await (.answer (.result err info))
        ⟨s.unlockCall h.workerId, callOkPc k h caller err info, []⟩
  | crashed (err : ToolError) :
      CallMove s t k h caller timeout .await (.answer (.transport err))
        ⟨s, .retire h.workerId
          (.call k h.sessionId caller (transportError h caller.tool err)) .take, []⟩
  | timedOut :
      CallMove s t k h caller timeout .await (.answer .timeout)
        ⟨s, .retire h.workerId
          (.call k h.sessionId caller (opTimeoutError h caller.tool timeout)) .take, []⟩
  | cancelled :
      CallMove s t k h caller timeout .await .cancelled
        ⟨s, .retire h.workerId
          (.call k h.sessionId caller (cancelledError h caller.tool)) .take, []⟩

inductive ReleaseMove (s : Pool) (t : TaskId) (h : Handle) (save : Bool) :
    ReleaseStage → Outcome → Move → Prop where
  | locked (slot : Slot) (found : s.slots h.workerId = some slot) (free : slot.callLock = none) :
      ReleaseMove s t h save .lock .go
        ⟨s.setSlot h.workerId { slot with callLock := some t }, .release h save .child, []⟩
  | diedBefore (slot : Slot) (found : s.slots h.workerId = some slot) (dead : slot.state = .dead) :
      ReleaseMove s t h save .child .go
        ⟨s.unlockCall h.workerId, .release h save (.idleCheck .foundDead), []⟩
  | closing (slot : Slot) (found : s.slots h.workerId = some slot) (live : slot.state ≠ .dead) :
      ReleaseMove s t h save .child .go
        ⟨s.setSlot h.workerId { slot with
            state := .closing
            sent := slot.sent ++ [.closeIdb h.sessionId save] },
          .release h save .close, []⟩
  | closed (a : Answer) (ok : closeError a = none) :
      ReleaseMove s t h save .close (.answer a) ⟨s, .release h save .final, []⟩
  | closeFailed (a : Answer) (err : ToolError) (failed : closeError a = some err) :
      ReleaseMove s t h save .close (.answer a)
        ⟨s, .retire h.workerId (.release h.sessionId save err) .take, []⟩
  | diedAfter (slot : Slot) (found : s.slots h.workerId = some slot) (dead : slot.state = .dead) :
      ReleaseMove s t h save .final .go
        ⟨s.unlockCall h.workerId, .release h save (.idleCheck .foundDead), []⟩
  | recycled (slot : Slot) (found : s.slots h.workerId = some slot) (live : slot.state ≠ .dead) :
      ReleaseMove s t h save .final .go
        ⟨(s.setSlot h.workerId { slot with
            state := .idle
            lastUsed := s.now
            idbPath := none }).unlockCall h.workerId,
          .release h save (.idleCheck .recycled), []⟩
  | ended (exit : ReleaseExit) (slot : Slot) (found : s.slots h.workerId = some slot) :
      ReleaseMove s t h save (.idleCheck exit) .go
        ⟨s, .done (.released h.workerId exit),
          if slot.state = .idle then [.reap h.workerId 0 .spawned] else []⟩

inductive RetireMove (cfg : Config) (s : Pool) (w : WorkerId) (ctx : RetireCtx) :
    RetireStage → Outcome → Move → Prop where
  | wasDead (slot : Slot) (found : s.slots w = some slot) (dead : slot.state = .dead) :
      RetireMove cfg s w ctx .take .go ⟨s, .retire w ctx (.forget false), []⟩
  | killed (slot : Slot) (found : s.slots w = some slot) (live : slot.state ≠ .dead) :
      RetireMove cfg s w ctx .take .go ⟨s.setSlot w slot.kill, .retire w ctx (.forget true), []⟩
  | forgotten (free : s.inner = none) :
      RetireMove cfg s w ctx (.forget true) .go ⟨s.forget [w], .retire w ctx .finish, []⟩
  | forgottenDead (free : s.inner = none) :
      RetireMove cfg s w ctx (.forget false) .go (retireReplenish (s.forget [w]) w ctx)
  | finished : RetireMove cfg s w ctx .finish .go (retireReplenish s w ctx)
  | enough (satisfied : cfg.min = 0 ∨ s.inner = none ∧
        (cfg.min ≤ s.spawning.card + s.children.length ∨
          cfg.maxWorkers ≤ s.spawning.card + s.children.length)) :
      RetireMove cfg s w ctx .check .go (retireDone s w ctx)
  | reserves (wanted : cfg.min ≠ 0) (free : s.inner = none)
      (below : s.spawning.card + s.children.length < cfg.min)
      (room : s.spawning.card + s.children.length < cfg.maxWorkers) :
      RetireMove cfg s w ctx .check .go ⟨s.reserve, .retire w ctx (.spawn s.nextId), []⟩
  | spawned (id : WorkerId) :
      RetireMove cfg s w ctx (.spawn id) .spawned
        ⟨s.setSlot id (Slot.fresh .idle s.now), .retire w ctx (.install id none), []⟩
  | spawnFailed (id : WorkerId) (started : Bool) (detail : String) :
      RetireMove cfg s w ctx (.spawn id) (.spawnFailed started detail)
        ⟨s, .retire w ctx (.install id (some (spawnError id started detail))), []⟩
  | installed (id : WorkerId) (free : s.inner = none) :
      RetireMove cfg s w ctx (.install id none) .go
        ⟨s.finishReservation id true, .retire w ctx .check, []⟩
  | failed (id : WorkerId) (err : ToolError) (free : s.inner = none) :
      RetireMove cfg s w ctx (.install id (some err)) .go
        (retireDone (s.finishReservation id false) w ctx)

inductive ReapMove (cfg : Config) (s : Pool) (t : TaskId) (w : WorkerId) (started : ℕ) :
    ReapStage → Outcome → Move → Prop where
  | never (off : cfg.workerIdleTimeout = 0) :
      ReapMove cfg s t w started .spawned .go ⟨s, .done .ok, []⟩
  | sleeps (on : cfg.workerIdleTimeout ≠ 0) :
      ReapMove cfg s t w started .spawned .go ⟨s, .reap w s.now .sleep, []⟩
  | wakes (elapsed : started + cfg.workerIdleTimeout ≤ s.now) :
      ReapMove cfg s t w started .sleep .go ⟨s, .reap w started .inner, []⟩
  | counts (free : s.inner = none) :
      ReapMove cfg s t w started .inner .go
        (countNext cfg (s.lockInner t) w started s.children s.spawning.card)
  | counted (c : WorkerId) (rest : List WorkerId) (live : ℕ) (slot : Slot)
      (found : s.slots c = some slot) :
      ReapMove cfg s t w started (.count (c :: rest) live) .go
        (countNext cfg s w started rest (if slot.state = .dead then live else live + 1))
  | kept (slot : Slot) (found : s.slots w = some slot)
      (used : slot.state ≠ .idle ∨ started < slot.lastUsed) :
      ReapMove cfg s t w started .take .go ⟨s.unlockInner, .done .ok, []⟩
  | reaped (slot : Slot) (found : s.slots w = some slot) (idle : slot.state = .idle)
      (unused : slot.lastUsed ≤ started) :
      ReapMove cfg s t w started .take .go
        ⟨(s.setSlot w slot.kill).unlockInner, .reap w started .forget, []⟩
  | forgotten (free : s.inner = none) :
      ReapMove cfg s t w started .forget .go ⟨s.forget [w], .reap w started .finish, []⟩
  | finished : ReapMove cfg s t w started .finish .go ⟨s, .done .ok, []⟩

/- The awaits that are not a stage of a longer task. -/
inductive SingleMove (s : Pool) : Pc → Move → Prop where
  | notOpen (k : SessionRef) (tool : String) (timeout : ℕ) (se : Session)
      (session : s.sessions k = some se) (free : se.handleLock = none) (handle : se.handle = none) :
      SingleMove s (.dispatchHandle k tool timeout) ⟨s, .done (.err .noDatabaseOpen), []⟩
  | dispatched (k : SessionRef) (tool : String) (timeout : ℕ) (se : Session) (h : Handle)
      (session : s.sessions k = some se) (free : se.handleLock = none)
      (handle : se.handle = some h) :
      SingleMove s (.dispatchHandle k tool timeout)
        ⟨s, .call k h (.dispatch tool) timeout .lock, []⟩
  | cleared (k : SessionRef) (h : Handle) (retire : Bool) (err : ToolError) (se : Session)
      (session : s.sessions k = some se) (free : se.handleLock = none) :
      SingleMove s (.dispatchClear k h retire err)
        ⟨s.setSession k (se.clearHandleIfWorker h.workerId),
          if retire then .retire h.workerId (.dispatch k h.sessionId err) .take
            else .done (.err err), []⟩
  | stored (k : SessionRef) (h : Handle) (path : String) (slot : Slot)
      (found : s.slots h.workerId = some slot) :
      SingleMove s (.openStore k h path)
        ⟨s.setSlot h.workerId { slot with idbPath := some path }, .done .ok, []⟩
  | nothingTaken (k : SessionRef) (save detached : Bool) (se : Session)
      (session : s.sessions k = some se) (free : se.handleLock = none) (handle : se.handle = none) :
      SingleMove s (.takeHandle k save detached) ⟨s, .done (.err .noDatabaseOpen), []⟩
  | taken (k : SessionRef) (save detached : Bool) (se : Session) (h : Handle)
      (session : s.sessions k = some se) (free : se.handleLock = none)
      (handle : se.handle = some h) :
      SingleMove s (.takeHandle k save detached)
        ⟨s.setSession k { se with handle := none }, .release h save .lock, []⟩
  | unreserved (id : WorkerId) (built : Bool) (free : s.inner = none) :
      SingleMove s (.unreserve id built)
        ⟨s.finishReservation id false,
          if built then .retire id .reservation .take else .done .ok, []⟩

variable {cfg : Config} {s : Pool} {t : TaskId} {o : Outcome} {m : Move} {pc : Pc}

theorem advanceWarm_move {left : ℕ} {stage : WarmStage} (h : advanceWarm s left stage o = some m) :
    WarmMove s left stage o m := by
  unfold advanceWarm at h
  split at h
  · split at h
    · cases h
      exact .serves
    · split at h
      · cases h
      · rename_i hfree
        cases h
        exact .reserves _ (not_not.mp hfree)
  · cases h
    exact .spawned _ _
  · cases h
    exact .spawnFailed _ _ _ _
  · split at h
    · cases h
    · rename_i hfree
      split at h
      · cases h
        exact .installed _ _ (not_not.mp hfree)
      · cases h
        exact .failed _ _ _ (not_not.mp hfree)
  · cases h

theorem advanceLease_move {k : SessionRef} {timeout : ℕ} {stage : LeaseStage}
    (h : advanceLease cfg s t k timeout stage o = some m) :
    LeaseMove cfg s t k timeout stage o m := by
  unfold advanceLease at h
  split at h
  · split at h
    · cases h
    · rename_i se hse
      split at h
      · cases h
      · rename_i hfree
        split at h
        · rename_i hd hhandle
          cases h
          exact .held se hd hse (not_not.mp hfree) hhandle
        · rename_i hhandle
          cases h
          exact .locked se hse (not_not.mp hfree) hhandle
  · split at h
    · cases h
    · rename_i hfree
      cases h
      exact .scans (not_not.mp hfree)
  · split at h
    · rename_i slot se hslot hse
      split at h
      · rename_i hdead
        cases h
        exact .foundDead _ _ _ _ slot hslot hdead
      · rename_i hidle
        cases h
        exact .granted _ _ _ _ slot se hslot hidle hse
      · rename_i hdead hidle
        cases h
        exact .foundBusy _ _ _ _ slot hslot hdead hidle
    · cases h
  · split at h
    · cases h
    · rename_i se hse
      cases h
      exact .spawned _ se hse
  · cases h
    exact .spawnFailed _ _ _
  · split at h
    · cases h
    · rename_i hfree
      split at h
      · rename_i se hse
        cases h
        exact .installed _ se (not_not.mp hfree) hse
      · cases h
        exact .failed _ _ (not_not.mp hfree)
      · cases h
  · cases h

theorem advanceCall_move {k : SessionRef} {h : Handle} {caller : Caller} {timeout : ℕ}
    {stage : CallStage} (hm : advanceCall s t k h caller timeout stage o = some m) :
    CallMove s t k h caller timeout stage o m := by
  unfold advanceCall at hm
  split at hm
  · split at hm
    · cases hm
    · rename_i slot hslot
      split at hm
      · cases hm
      · rename_i hfree
        cases hm
        exact .locked slot hslot (not_not.mp hfree)
  · split at hm
    · cases hm
    · rename_i slot hslot
      split at hm
      · rename_i hleased
        cases hm
        exact .sent slot hslot hleased
      · rename_i hother
        cases hm
        exact .refused slot hslot hother
  · cases hm
    exact .answered _ _
  · cases hm
    exact .crashed _
  · cases hm
    exact .timedOut
  · cases hm
    exact .cancelled
  · cases hm

theorem advanceRelease_move {h : Handle} {save : Bool} {stage : ReleaseStage}
    (hm : advanceRelease s t h save stage o = some m) : ReleaseMove s t h save stage o m := by
  unfold advanceRelease at hm
  split at hm
  · split at hm
    · cases hm
    · rename_i slot hslot
      split at hm
      · cases hm
      · rename_i hfree
        cases hm
        exact .locked slot hslot (not_not.mp hfree)
  · split at hm
    · cases hm
    · rename_i slot hslot
      split at hm
      · rename_i hdead
        cases hm
        exact .diedBefore slot hslot hdead
      · rename_i hlive
        cases hm
        exact .closing slot hslot hlive
  · split at hm
    · rename_i hok
      cases hm
      exact .closed _ hok
    · rename_i err hfailed
      cases hm
      exact .closeFailed _ err hfailed
  · split at hm
    · cases hm
    · rename_i slot hslot
      split at hm
      · rename_i hdead
        cases hm
        exact .diedAfter slot hslot hdead
      · rename_i hlive
        cases hm
        exact .recycled slot hslot hlive
  · split at hm
    · cases hm
    · rename_i slot hslot
      cases hm
      exact .ended _ slot hslot
  · cases hm

theorem advanceRetire_move {w : WorkerId} {ctx : RetireCtx} {stage : RetireStage}
    (hm : advanceRetire cfg s w ctx stage o = some m) : RetireMove cfg s w ctx stage o m := by
  unfold advanceRetire at hm
  split at hm
  · split at hm
    · cases hm
    · rename_i slot hslot
      split at hm
      · rename_i hdead
        cases hm
        exact .wasDead slot hslot hdead
      · rename_i hlive
        cases hm
        exact .killed slot hslot hlive
  · rename_i took
    split at hm
    · cases hm
    · rename_i hfree
      cases took with
      | true =>
        cases hm
        exact .forgotten (not_not.mp hfree)
      | false =>
        cases hm
        exact .forgottenDead (not_not.mp hfree)
  · cases hm
    exact .finished
  · split at hm
    · rename_i hzero
      cases hm
      exact .enough (.inl hzero)
    · rename_i hwanted
      split at hm
      · cases hm
      · rename_i hfree
        dsimp only at hm
        split at hm
        · rename_i hfull
          cases hm
          exact .enough (.inr ⟨not_not.mp hfree, hfull⟩)
        · rename_i hbelow
          rw [not_or] at hbelow
          cases hm
          exact .reserves hwanted (not_not.mp hfree) (Nat.lt_of_not_le hbelow.1)
            (Nat.lt_of_not_le hbelow.2)
  · cases hm
    exact .spawned _
  · cases hm
    exact .spawnFailed _ _ _
  · split at hm
    · cases hm
    · rename_i hfree
      split at hm
      · cases hm
        exact .installed _ (not_not.mp hfree)
      · cases hm
        exact .failed _ _ (not_not.mp hfree)
  · cases hm

theorem advanceReap_move {w : WorkerId} {started : ℕ} {stage : ReapStage}
    (hm : advanceReap cfg s t w started stage o = some m) :
    ReapMove cfg s t w started stage o m := by
  unfold advanceReap at hm
  split at hm
  · split at hm
    · rename_i hoff
      cases hm
      exact .never hoff
    · rename_i hon
      cases hm
      exact .sleeps hon
  · split at hm
    · rename_i helapsed
      cases hm
      exact .wakes helapsed
    · cases hm
  · split at hm
    · cases hm
    · rename_i hfree
      cases hm
      exact .counts (not_not.mp hfree)
  · split at hm
    · cases hm
    · rename_i slot hslot
      cases hm
      exact .counted _ _ _ slot hslot
  · split at hm
    · cases hm
    · rename_i slot hslot
      split at hm
      · rename_i hused
        cases hm
        exact .kept slot hslot hused
      · rename_i hidle
        rw [not_or, not_not] at hidle
        cases hm
        exact .reaped slot hslot hidle.1 (Nat.le_of_not_lt hidle.2)
  · split at hm
    · cases hm
    · rename_i hfree
      cases hm
      exact .forgotten (not_not.mp hfree)
  · cases hm
    exact .finished
  · cases hm

theorem advanceDispatchHandle_move {k : SessionRef} {tool : String} {timeout : ℕ}
    (hm : advanceDispatchHandle s k tool timeout = some m) :
    SingleMove s (.dispatchHandle k tool timeout) m := by
  unfold advanceDispatchHandle at hm
  split at hm
  · cases hm
  · rename_i se hse
    split at hm
    · cases hm
    · rename_i hfree
      split at hm
      · rename_i hhandle
        cases hm
        exact .notOpen k tool timeout se hse (not_not.mp hfree) hhandle
      · rename_i h hhandle
        cases hm
        exact .dispatched k tool timeout se h hse (not_not.mp hfree) hhandle

theorem advanceDispatchClear_move {k : SessionRef} {h : Handle} {retire : Bool} {err : ToolError}
    (hm : advanceDispatchClear s k h retire err = some m) :
    SingleMove s (.dispatchClear k h retire err) m := by
  unfold advanceDispatchClear at hm
  split at hm
  · cases hm
  · rename_i se hse
    split at hm
    · cases hm
    · rename_i hfree
      cases hm
      exact .cleared k h retire err se hse (not_not.mp hfree)

theorem advanceOpenStore_move {k : SessionRef} {h : Handle} {path : String}
    (hm : advanceOpenStore s h path = some m) : SingleMove s (.openStore k h path) m := by
  unfold advanceOpenStore at hm
  split at hm
  · cases hm
  · rename_i slot hslot
    cases hm
    exact .stored k h path slot hslot

theorem advanceTakeHandle_move {k : SessionRef} {save detached : Bool}
    (hm : advanceTakeHandle s k save = some m) : SingleMove s (.takeHandle k save detached) m := by
  unfold advanceTakeHandle at hm
  split at hm
  · cases hm
  · rename_i se hse
    split at hm
    · cases hm
    · rename_i hfree
      split at hm
      · rename_i hhandle
        cases hm
        exact .nothingTaken k save detached se hse (not_not.mp hfree) hhandle
      · rename_i h hhandle
        cases hm
        exact .taken k save detached se h hse (not_not.mp hfree) hhandle

theorem advanceUnreserve_move {id : WorkerId} {built : Bool}
    (hm : advanceUnreserve s id built = some m) : SingleMove s (.unreserve id built) m := by
  unfold advanceUnreserve at hm
  split at hm
  · cases hm
  · rename_i hfree
    cases hm
    exact .unreserved id built (not_not.mp hfree)

/- A resumed task moves as its kind does. -/
inductive Moves (cfg : Config) (s : Pool) (t : TaskId) (o : Outcome) : Pc → Move → Prop where
  | warm {m : Move} (left : ℕ) (stage : WarmStage) (move : WarmMove s left stage o m) :
      Moves cfg s t o (.warm left stage) m
  | lease {m : Move} (k : SessionRef) (timeout : ℕ) (stage : LeaseStage)
      (move : LeaseMove cfg s t k timeout stage o m) : Moves cfg s t o (.lease k timeout stage) m
  | call {m : Move} (k : SessionRef) (h : Handle) (caller : Caller) (timeout : ℕ)
      (stage : CallStage) (move : CallMove s t k h caller timeout stage o m) :
      Moves cfg s t o (.call k h caller timeout stage) m
  | release {m : Move} (h : Handle) (save : Bool) (stage : ReleaseStage)
      (move : ReleaseMove s t h save stage o m) : Moves cfg s t o (.release h save stage) m
  | retire {m : Move} (w : WorkerId) (ctx : RetireCtx) (stage : RetireStage)
      (move : RetireMove cfg s w ctx stage o m) : Moves cfg s t o (.retire w ctx stage) m
  | reap {m : Move} (w : WorkerId) (started : ℕ) (stage : ReapStage)
      (move : ReapMove cfg s t w started stage o m) : Moves cfg s t o (.reap w started stage) m
  | single {pc : Pc} {m : Move} (outcome : o = .go) (move : SingleMove s pc m) :
      Moves cfg s t o pc m

theorem advance_moves (hm : advance cfg s t o pc = some m) : Moves cfg s t o pc m := by
  cases pc with
  | done exit => cases hm
  | warm left stage => exact .warm _ _ (advanceWarm_move hm)
  | lease k timeout stage => exact .lease _ _ _ (advanceLease_move hm)
  | call k h caller timeout stage => exact .call _ _ _ _ _ (advanceCall_move hm)
  | release h save stage => exact .release _ _ _ (advanceRelease_move hm)
  | retire w ctx stage => exact .retire _ _ _ (advanceRetire_move hm)
  | reap w started stage => exact .reap _ _ _ (advanceReap_move hm)
  | dispatchHandle k tool timeout =>
    obtain ⟨hgo, hm⟩ := Option.ite_none_right_eq_some.mp hm
    exact .single hgo (advanceDispatchHandle_move hm)
  | dispatchClear k h retire err =>
    obtain ⟨hgo, hm⟩ := Option.ite_none_right_eq_some.mp hm
    exact .single hgo (advanceDispatchClear_move hm)
  | openStore k h path =>
    obtain ⟨hgo, hm⟩ := Option.ite_none_right_eq_some.mp hm
    exact .single hgo (advanceOpenStore_move hm)
  | takeHandle k save detached =>
    obtain ⟨hgo, hm⟩ := Option.ite_none_right_eq_some.mp hm
    exact .single hgo (advanceTakeHandle_move hm)
  | unreserve id built =>
    obtain ⟨hgo, hm⟩ := Option.ite_none_right_eq_some.mp hm
    exact .single hgo (advanceUnreserve_move hm)

end IdaHeadless.WorkerPool
