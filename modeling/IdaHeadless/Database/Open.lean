import IdaHeadless.Database.Identity

/-!
# `handle_open` (ida/handlers/database.rs, ida/lock.rs)

One call of `handle_open` in the worker, with every return of the function. What the
operating system, the IDA library and the client answer at each place where the function
asks is a field of `Env`. A return after the lock was taken drops the local database and
the local `McpLock`; only the last lines move them to the caller.

Left out: progress events and the ticker thread, and of the `DbInfo` what the database
itself says. `expand_path` and `non_empty_trimmed` have been applied to the arguments.
-/

namespace IdaHeadless.Database
open Paths

/-! ### State -/

/- An open database, with the path `IDB::path` gives. -/
structure IDB where
  path : Path
  deriving DecidableEq

/- A held lock: the descriptor of the lock file, and its path. -/
structure McpLock where
  fd : ℕ
  path : Path
  deriving DecidableEq

/- The three variables of the worker loop. Where the loop drops a database it also calls
`release_mcp_lock`, so without a database there is no lock. -/
structure Worker where
  idb : Option IDB
  lockFile : Option ℕ
  lockPath : Option Path
  released : idb = none → lockFile = none ∧ lockPath = none

/- The worker process: the record locks it has, and the lock files that have a name.
Descriptors from `nextFd` on are unused. -/
structure Sys where
  nextFd : ℕ
  held : List McpLock
  files : List Path
  deriving DecidableEq

/- A process gives up its record locks on a file when it closes any descriptor of it. -/
def Sys.close (sys : Sys) (path : Path) : Sys :=
  { sys with held := sys.held.filter fun lock => !same lock.path path }

def Sys.removeFile (sys : Sys) (path : Path) (removed : Bool) : Sys :=
  if removed then { sys with files := sys.files.filter fun file => !same file path } else sys

structure OpenSpec where
  expanded : Path
  idbOut : Option Path
  loadDebugInfo : Bool
  debugInfoPath : Option Path
  force : Bool
  rebuild : Bool
  autoAnalyse : Bool

structure DebugInfoLoad where
  path : Path
  loaded : Bool
  error : Option String
  deriving DecidableEq

structure DbInfo where
  path : Path
  debugInfo : Option DebugInfoLoad
  deriving DecidableEq

/- What `clean_stale_mcp_lock` did: it found no file, it read the file (a close) and left
it, or it removed it. -/
inductive StaleOutcome where
  | absent
  | kept
  | removed

/- How the system calls of `acquire_mcp_lock` ended. -/
inductive AcquireOutcome where
  | openFailed (message : String)
  | lockedBy (pid : ℕ)
  | granted

/- The answers a call gets from outside. -/
structure Env where
  cancelledAtStart : Bool
  inputExists : Bool
  generatedExists : Bool
  dsymExists : Bool
  staleTarget : StaleOutcome
  staleInput : StaleOutcome
  acquire : AcquireOutcome
  openFirst : Except String IDB
  id0Exists : Bool
  openFallback : Except String IDB
  openRaw : Except String IDB
  detectedLock : Option String
  lockFileRemoved : Bool
  cancelledAfterOpen : Bool
  cancelledBeforeDebugInfo : Bool
  debugInfoExists : Bool
  debugInfoLoaded : Except String Bool
  cancelledAtEnd : Bool

def display (p : Path) : String := String.ofList p

/-! ### The lock -/

def cleanStaleMcpLock (sys : Sys) (candidate : Path) : StaleOutcome → Sys
  | .absent => sys
  | .kept => sys.close (mcpLockPath candidate)
  | .removed => (sys.close (mcpLockPath candidate)).removeFile (mcpLockPath candidate) true

def acquireMcpLock (sys : Sys) (dbPath : Path) : AcquireOutcome → Except ToolError McpLock × Sys
  | .openFailed message =>
    (.error (.openFailed (display (mcpLockPath dbPath) ++ ": " ++ message)), sys)
  | .lockedBy pid =>
    (.error (.databaseLocked (LockFile.lockedMessage (display (mcpLockPath dbPath)) pid)),
      { sys with files := mcpLockPath dbPath :: sys.files }.close (mcpLockPath dbPath))
  | .granted =>
    let lock : McpLock := ⟨sys.nextFd, mcpLockPath dbPath⟩
    (.ok lock, ⟨sys.nextFd + 1, lock :: sys.held, lock.path :: sys.files⟩)

/- `release_mcp_lock_file` and `Drop for McpLock`: the name is removed, then the descriptor
is closed. -/
def releaseMcpLockFile (sys : Sys) (lock : McpLock) (removed : Bool) : Sys :=
  (sys.removeFile lock.path removed).close lock.path

/-! ### What is opened -/

/- `raw_out_path` and `existing_raw_idb_path`. -/
def rawOutPath (spec : OpenSpec) : Option Path :=
  if hasIdaDatabaseExtension spec.expanded then none
  else some (spec.idbOut.getD (idbPathForRawBinary spec.expanded))

def existingIdbForRawOpen (spec : OpenSpec) (env : Env) : Option Path :=
  if env.generatedExists then some (spec.idbOut.getD (idbPathForRawBinary spec.expanded)) else none

def existingRawIdbPath (spec : OpenSpec) (env : Env) : Option Path :=
  if hasIdaDatabaseExtension spec.expanded || spec.rebuild then none
  else existingIdbForRawOpen spec env

def shouldLoadDsym (spec : OpenSpec) (env : Env) : Bool :=
  !hasIdaDatabaseExtension spec.expanded && (existingIdbForRawOpen spec env).isNone

/- Result and `opened_path` of the open, with the fallback to the unpacked part. `none` is
the return for a missing output path. -/
def openDatabase (spec : OpenSpec) (env : Env) : Option (Except String IDB × Path) :=
  if hasIdaDatabaseExtension spec.expanded || (existingRawIdbPath spec env).isSome then
    let dbPathToOpen := (existingRawIdbPath spec env).getD spec.expanded
    match env.openFirst, unpackedId0Path dbPathToOpen with
    | .error _, some id0Path =>
      if env.id0Exists then some (env.openFallback, id0Path) else some (env.openFirst, dbPathToOpen)
    | first, _ => some (first, dbPathToOpen)
  else
    match rawOutPath spec with
    | none => none
    | some outPath => some (env.openRaw, outPath)

/-! ### Debug information -/

def dsymSuffix : List Char := ['.', 'd', 'S', 'Y', 'M']
def dwarfDir : List Char := "/Contents/Resources/DWARF/".toList

def dsymExpectedPathForBinary (p : Path) : Option Path :=
  (fileName p).map fun name => p ++ dsymSuffix ++ dwarfDir ++ name

def baseInputPathForDatabase (p : Path) : Path :=
  if hasIdaDatabaseExtension p then setExtension p [] else p

def cancelled : ToolError := .cancelled "Operation cancelled by client"

/- The file of the requested debug information. -/
def resolvedDebugInfo (spec : OpenSpec) : Option Path :=
  match spec.debugInfoPath with
  | some path => some path
  | none =>
    dsymExpectedPathForBinary (if hasIdaDatabaseExtension spec.expanded then
      baseInputPathForDatabase spec.expanded else spec.expanded)

def loadDebugInfo (env : Env) (path : Path) : DebugInfoLoad :=
  if !env.debugInfoExists then ⟨path, false, some "debug info not found"⟩
  else
    match env.debugInfoLoaded with
    | .ok true => ⟨path, true, none⟩
    | .ok false => ⟨path, false, some "load returned false"⟩
    | .error e => ⟨path, false, some e⟩

/- The part between the open and the last check; a sibling dSYM is loaded without a report. -/
def debugInfoStage (spec : OpenSpec) (env : Env) : Except ToolError (Option DebugInfoLoad) :=
  if spec.loadDebugInfo then
    if env.cancelledBeforeDebugInfo then .error cancelled
    else .ok ((resolvedDebugInfo spec).map (loadDebugInfo env))
  else if shouldLoadDsym spec env && env.dsymExists &&
      (dsymExpectedPathForBinary spec.expanded).isSome then
    if env.cancelledBeforeDebugInfo then .error cancelled else .ok none
  else .ok none

/-! ### `handle_open` -/

structure Outcome where
  result : Except ToolError DbInfo
  worker : Worker
  sys : Sys

/- Everything after the lock was taken. -/
def openLocked (worker : Worker) (sys : Sys) (lock : McpLock) (spec : OpenSpec) (env : Env) :
    Outcome :=
  -- a return here drops the local `db`, if any, and `mcp_lock`
  let giveUp (err : ToolError) : Outcome :=
    ⟨.error err, worker, releaseMcpLockFile sys lock env.lockFileRemoved⟩
  match openDatabase spec env with
  | none => giveUp (.openFailed "raw binary output path was not initialized")
  | some (.error e, openedPath) =>
    match env.detectedLock with
    | some lockMsg => giveUp (.databaseLocked lockMsg)
    | none => giveUp (.openFailed (display openedPath ++ ": " ++ e))
  | some (.ok db, openedPath) =>
    -- at the end the assignment to `lock_file` drops the old value, which is `None`
    if env.cancelledAfterOpen then giveUp cancelled
    else
      match debugInfoStage spec env with
      | .error err => giveUp err
      | .ok debugInfo =>
        if env.cancelledAtEnd then giveUp cancelled
        else ⟨.ok ⟨openedPath, debugInfo⟩, ⟨some db, some lock.fd, some lock.path, nofun⟩, sys⟩

def handleOpen (worker : Worker) (sys : Sys) (spec : OpenSpec) (env : Env) : Outcome :=
  if env.cancelledAtStart then ⟨.error cancelled, worker, sys⟩
  else
    match worker.idb with
    | some db =>
      if databasePathsMatch db.path spec.expanded then ⟨.ok ⟨db.path, none⟩, worker, sys⟩
      else ⟨.error (.databaseAlreadyOpen (display db.path)), worker, sys⟩
    | none =>
      if !env.inputExists then
        ⟨.error (.invalidPath ("File not found: " ++ display spec.expanded)), worker, sys⟩
      else
        let target := lockTargetPath spec.expanded spec.idbOut
        let sys :=
          if spec.force then
            cleanStaleMcpLock (cleanStaleMcpLock sys target env.staleTarget) spec.expanded
              env.staleInput
          else sys
        match acquireMcpLock sys target env.acquire with
        | (.error err, sys) => ⟨.error err, worker, sys⟩
        | (.ok lock, sys) => openLocked worker sys lock spec env

/-! ### The lock is that of the opened path -/

theorem unpackedId0Path_lock {p q : Path} (h : unpackedId0Path p = some q) :
    mcpLockPath q = mcpLockPath p := by
  obtain ⟨ext, hext, hq⟩ := Option.bind_eq_some_iff.mp h
  have hname : fileName p ≠ none := by
    intro hnone
    rw [extension, hnone] at hext
    cases hext
  split at hq
  · cases hq
    exact setExtension_setExtension (by decide) (by decide) (by decide) hname
  · cases hq

/- An existing database, given or generated, is the target of the lock. -/
theorem existing_is_lockTarget {spec : OpenSpec} {env : Env}
    (h : hasIdaDatabaseExtension spec.expanded = true ∨ (existingRawIdbPath spec env).isSome) :
    (existingRawIdbPath spec env).getD spec.expanded =
      lockTargetPath spec.expanded spec.idbOut := by
  unfold lockTargetPath existingRawIdbPath existingIdbForRawOpen at *
  by_cases hidb : hasIdaDatabaseExtension spec.expanded = true
  · simp [hidb]
  · have hsome := h.resolve_left hidb
    cases hrebuild : spec.rebuild with
    | true => simp [hrebuild] at hsome
    | false =>
      cases hexists : env.generatedExists with
      | false => simp [hexists] at hsome
      | true => simp [hidb]

theorem openDatabase_lock {spec : OpenSpec} {env : Env} {r : Except String IDB}
    {openedPath : Path} (h : openDatabase spec env = some (r, openedPath)) :
    mcpLockPath openedPath = mcpLockPath (lockTargetPath spec.expanded spec.idbOut) := by
  unfold openDatabase at h
  split at h
  · rename_i hexisting
    have htarget := existing_is_lockTarget (by simpa using hexisting)
    rw [htarget] at h
    dsimp only at h
    split at h
    · rename_i id0Path _ hid0
      split at h
      · cases h
        exact unpackedId0Path_lock hid0
      · cases h
        rfl
    · cases h
      rfl
  · rename_i hraw
    have hnot : hasIdaDatabaseExtension spec.expanded = false := by
      simp only [Bool.or_eq_true, not_or, Bool.not_eq_true] at hraw
      exact hraw.1
    rw [rawOutPath, hnot] at h
    cases h
    rw [lockTargetPath, hnot]
    rfl

/-! ### What a call leaves -/

/- `sys'` holds no lock, and has no lock file, that `sys` does not. -/
structure Within (sys' sys : Sys) : Prop where
  held : ∀ lock ∈ sys'.held, lock ∈ sys.held
  files : ∀ file ∈ sys'.files, file ∈ sys.files

theorem Within.rfl {sys : Sys} : Within sys sys := ⟨fun _ h => h, fun _ h => h⟩

theorem Within.trans {a b c : Sys} (h : Within a b) (h' : Within b c) : Within a c :=
  ⟨fun lock hlock => h'.held lock (h.held lock hlock),
    fun file hfile => h'.files file (h.files file hfile)⟩

theorem close_within (sys : Sys) (path : Path) : Within (sys.close path) sys :=
  ⟨fun _ hlock => List.mem_of_mem_filter hlock, fun _ hfile => hfile⟩

theorem removeFile_within (sys : Sys) (path : Path) (removed : Bool) :
    Within (sys.removeFile path removed) sys := by
  unfold Sys.removeFile
  split
  · exact ⟨fun _ hlock => hlock, fun _ hfile => List.mem_of_mem_filter hfile⟩
  · exact Within.rfl

theorem cleanStaleMcpLock_within (sys : Sys) (candidate : Path) (stale : StaleOutcome) :
    Within (cleanStaleMcpLock sys candidate stale) sys := by
  cases stale with
  | absent => exact Within.rfl
  | kept => exact close_within sys _
  | removed => exact (removeFile_within _ _ _).trans (close_within sys _)

/- A lock that was refused is not held. Its file was there, or was created to ask. -/
theorem acquireMcpLock_error {sys sys' : Sys} {dbPath : Path} {outcome : AcquireOutcome}
    {err : ToolError} (h : acquireMcpLock sys dbPath outcome = (.error err, sys')) :
    (∀ lock ∈ sys'.held, lock ∈ sys.held) ∧ outcome ≠ .granted := by
  cases outcome with
  | openFailed message =>
    cases h
    exact ⟨fun _ hlock => hlock, nofun⟩
  | lockedBy pid =>
    cases h
    exact ⟨fun _ hlock => List.mem_of_mem_filter hlock, nofun⟩
  | granted => cases h

theorem acquireMcpLock_ok {sys sys' : Sys} {dbPath : Path} {outcome : AcquireOutcome}
    {lock : McpLock} (h : acquireMcpLock sys dbPath outcome = (.ok lock, sys')) :
    lock.path = mcpLockPath dbPath ∧ sys'.held = lock :: sys.held ∧
      sys'.files = lock.path :: sys.files := by
  cases outcome with
  | granted =>
    cases h
    exact ⟨rfl, rfl, rfl⟩
  | openFailed message => cases h
  | lockedBy pid => cases h

/- The lock that was taken goes with its descriptor, and its file if it can be removed. -/
theorem releaseMcpLockFile_held {sys sys' : Sys} {lock : McpLock} (removed : Bool)
    (h : sys'.held = lock :: sys.held) :
    ∀ l ∈ (releaseMcpLockFile sys' lock removed).held, l ∈ sys.held := by
  intro l hl
  obtain ⟨hmem, hkept⟩ := List.mem_filter.mp hl
  have hmem' : l ∈ sys'.held := (removeFile_within sys' lock.path removed).held l hmem
  rw [h] at hmem'
  rcases List.mem_cons.mp hmem' with rfl | hold
  · rw [same_refl] at hkept
    cases hkept
  · exact hold

theorem releaseMcpLockFile_files {sys sys' : Sys} {lock : McpLock}
    (h : sys'.files = lock.path :: sys.files) :
    ∀ file ∈ (releaseMcpLockFile sys' lock true).files, file ∈ sys.files := by
  intro file hfile
  obtain ⟨hmem, hkept⟩ := List.mem_filter.mp hfile
  rw [h] at hmem
  rcases List.mem_cons.mp hmem with rfl | hold
  · rw [same_refl] at hkept
    cases hkept
  · exact hold

/-! ### Atomicity -/

/- What the caller can rely on. After an error its variables are the old ones and the
process has no lock it did not have; a lock the call took has lost its file as well, if
the file could be removed. A database that was opened comes with the lock of its path. -/
def Atomic (worker : Worker) (sys : Sys) (env : Env) (out : Outcome) : Prop :=
  match out.result with
  | .error _ =>
    out.worker = worker ∧ (∀ lock ∈ out.sys.held, lock ∈ sys.held) ∧
      (env.acquire = .granted → env.lockFileRemoved = true →
        ∀ file ∈ out.sys.files, file ∈ sys.files)
  | .ok info =>
    match worker.idb with
    | some _ => out.worker = worker ∧ out.sys = sys
    | none =>
      ∃ db lock, out.worker.idb = some db ∧ out.worker.lockFile = some lock.fd ∧
        out.worker.lockPath = some lock.path ∧ lock ∈ out.sys.held ∧
        lock.path = mcpLockPath info.path

theorem openLocked_atomic {worker : Worker} {sys sys' : Sys} {lock : McpLock} {spec : OpenSpec}
    {env : Env} (hidb : worker.idb = none)
    (hpath : lock.path = mcpLockPath (lockTargetPath spec.expanded spec.idbOut))
    (hheld : sys'.held = lock :: sys.held) (hfiles : sys'.files = lock.path :: sys.files) :
    Atomic worker sys env (openLocked worker sys' lock spec env) := by
  have hgiveUp : ∀ err, Atomic worker sys env
      ⟨.error err, worker, releaseMcpLockFile sys' lock env.lockFileRemoved⟩ := by
    intro err
    refine ⟨rfl, releaseMcpLockFile_held _ hheld, ?_⟩
    intro _ hremoved
    rw [hremoved]
    exact releaseMcpLockFile_files hfiles
  unfold openLocked
  split
  · exact hgiveUp _
  · split
    · exact hgiveUp _
    · exact hgiveUp _
  · rename_i db openedPath hopen
    split
    · exact hgiveUp _
    · split
      · exact hgiveUp _
      · split
        · exact hgiveUp _
        · simp only [Atomic, hidb]
          have hmem : lock ∈ sys'.held := by
            rw [hheld]
            exact List.mem_cons_self
          exact ⟨db, lock, rfl, rfl, rfl, hmem, hpath.trans (openDatabase_lock hopen).symm⟩

/- An error of the start of the call, before the lock. -/
theorem atomic_of_error {worker : Worker} {sys sys' : Sys} {env : Env} {err : ToolError}
    (h : Within sys' sys) : Atomic worker sys env ⟨.error err, worker, sys'⟩ :=
  ⟨rfl, h.held, fun _ _ => h.files⟩

/- Atomicity is about what is added: it can be shown from a later point of the call. -/
theorem Atomic.of_within {worker : Worker} {sys sys' : Sys} {env : Env} {out : Outcome}
    (hidb : worker.idb = none) (hw : Within sys' sys) (h : Atomic worker sys' env out) :
    Atomic worker sys env out := by
  unfold Atomic at h ⊢
  split
  · rename_i hresult
    rw [hresult] at h
    obtain ⟨hworker, hheld, hfiles⟩ := h
    refine ⟨hworker, fun lock hlock => hw.held lock (hheld lock hlock), ?_⟩
    intro hgranted hremoved file hfile
    exact hw.files file (hfiles hgranted hremoved file hfile)
  · rename_i hresult
    rw [hresult] at h
    simp only [hidb] at h ⊢
    exact h

/-- An open that fails leaves the worker and its locks as they were, and one that succeeds has the
lock of its database. -/
theorem handle_open_atomic (worker : Worker) (sys : Sys) (spec : OpenSpec) (env : Env) :
    Atomic worker sys env (handleOpen worker sys spec env) := by
  unfold handleOpen
  split
  · exact atomic_of_error Within.rfl
  · split
    · rename_i db hidb
      split
      · simp only [Atomic, hidb]
        exact ⟨trivial, trivial⟩
      · exact atomic_of_error Within.rfl
    · rename_i hidb
      split
      · exact atomic_of_error Within.rfl
      · have hclean : Within (if spec.force then cleanStaleMcpLock (cleanStaleMcpLock sys
            (lockTargetPath spec.expanded spec.idbOut) env.staleTarget) spec.expanded
            env.staleInput else sys) sys := by
          split
          · exact (cleanStaleMcpLock_within _ _ _).trans (cleanStaleMcpLock_within _ _ _)
          · exact Within.rfl
        dsimp only
        generalize (if spec.force then _ else sys) = cleaned at hclean ⊢
        apply Atomic.of_within hidb hclean
        split
        · rename_i err sys' hacquire
          obtain ⟨hheld, hrefused⟩ := acquireMcpLock_error hacquire
          exact ⟨rfl, hheld, fun hgranted => absurd hgranted hrefused⟩
        · rename_i lock sys' hacquire
          obtain ⟨hpath, hheld, hfiles⟩ := acquireMcpLock_ok hacquire
          exact openLocked_atomic hidb hpath hheld hfiles

/- `a.i64` cannot be opened and the unpacked `a.id0` can: the lock is on `a.imcp`. -/
example :
    let out := handleOpen ⟨none, none, none, fun _ => ⟨rfl, rfl⟩⟩ ⟨7, [], []⟩
      ⟨'a' :: '.' :: i64, none, false, none, false, false, false⟩
      { cancelledAtStart := false, inputExists := true, generatedExists := false
        dsymExists := false, staleTarget := .absent, staleInput := .absent, acquire := .granted
        openFirst := .error "damaged", id0Exists := true, openFallback := .ok ⟨'a' :: '.' :: id0⟩
        openRaw := .error "", detectedLock := none, lockFileRemoved := true
        cancelledAfterOpen := false, cancelledBeforeDebugInfo := false, debugInfoExists := false
        debugInfoLoaded := .ok false, cancelledAtEnd := false }
    out.result.toOption.map DbInfo.path = some ('a' :: '.' :: id0) ∧
      out.worker.lockFile = some 7 ∧ out.sys.held = [⟨7, 'a' :: '.' :: imcp⟩] := by
  decide

end IdaHeadless.Database
