import IdaHeadless.LockFile.Exclusion
import IdaHeadless.Paths

/-!
# Which paths are one database (ida/handlers/database.rs, ida/lock.rs)

`database_paths_match` compares the spellings of a database: the packed file, the
unpacked `.id0` beside it and the raw input it was generated from. The MCP lock of a
path is on the file that `acquire_mcp_lock` derives from the database or from the output
file of a raw input.

Paths reach the worker as JSON strings, so their extensions are valid UTF-8 and
`to_str` does not fail.
-/

namespace IdaHeadless.Database
open Paths

variable {a b : Path} {name name' : List Char} {dir dir' : Option Path}

/-! ### The paths of a database -/

def i64 : List Char := ['i', '6', '4']
def idb : List Char := ['i', 'd', 'b']
def id0 : List Char := ['i', 'd', '0']
def imcp : List Char := ['i', 'm', 'c', 'p']

/- `to_ascii_lowercase`. -/
def lower (cs : List Char) : List Char := cs.map Char.toLower

def unpackedId0Path (p : Path) : Option Path :=
  (extension p).bind fun ext =>
    if lower ext = i64 ∨ lower ext = idb then some (setExtension p id0) else none

/- The suffix is appended: an extension of the input stays. -/
def idbPathForRawBinary (p : Path) : Path := p ++ '.' :: i64

def hasIdaDatabaseExtension (p : Path) : Bool :=
  (extension p).any fun ext => lower ext = i64 || lower ext = idb || lower ext = id0

def rawInputMatchesGeneratedDatabase (raw database : Path) : Bool :=
  !hasIdaDatabaseExtension raw && same (idbPathForRawBinary raw) database

def databasePathsMatch (current requested : Path) : Bool :=
  same current requested || (unpackedId0Path current).any (same · requested) ||
    (unpackedId0Path requested).any (same · current) ||
    rawInputMatchesGeneratedDatabase requested current ||
    rawInputMatchesGeneratedDatabase current requested

/- `lock_target_path` of `handle_open`. `is_idb` there is `has_ida_database_extension`. -/
def lockTargetPath (expanded : Path) (idbOut : Option Path) : Path :=
  if hasIdaDatabaseExtension expanded then expanded
  else idbOut.getD (idbPathForRawBinary expanded)

/- The lock file of `acquire_mcp_lock`. -/
def mcpLockPath (dbPath : Path) : Path := setExtension dbPath imcp

theorem databasePathsMatch_comm (a b : Path) : databasePathsMatch a b = databasePathsMatch b a := by
  simp only [databasePathsMatch, same_comm a b]
  ac_rfl

/-! ### Names -/

/- The two notions of a database path, on the name. -/
def isDatabaseName (name : List Char) : Bool :=
  (extensionOf name).any fun ext => lower ext = i64 || lower ext = idb || lower ext = id0

def isPackedName (name : List Char) : Bool :=
  (extensionOf name).any fun ext => lower ext = i64 || lower ext = idb

/- The name of the lock file. -/
def lockName (name : List Char) : List Char :=
  withExtension (if isDatabaseName name then name else name ++ '.' :: i64) imcp

theorem hasIdaDatabaseExtension_inDir (h : Normal name) :
    hasIdaDatabaseExtension (inDir dir name) = isDatabaseName name := by
  rw [hasIdaDatabaseExtension, extension_inDir h, isDatabaseName]

theorem unpackedId0Path_inDir (h : Normal name) :
    unpackedId0Path (inDir dir name) =
      if isPackedName name then some (inDir dir (withExtension name id0)) else none := by
  rw [unpackedId0Path, extension_inDir h, isPackedName, setExtension_inDir h]
  cases extensionOf name with
  | none => simp
  | some ext => simp

theorem idbPathForRawBinary_inDir :
    idbPathForRawBinary (inDir dir name) = inDir dir (name ++ '.' :: i64) := by
  cases dir with
  | none => rfl
  | some d => simp [idbPathForRawBinary, inDir]

/- The suffix makes a file name of whatever stands before it. -/
theorem normal_append_i64 (h : '/' ∉ name) : Normal (name ++ '.' :: i64) := by
  have hlength : 3 < (name ++ '.' :: i64).length := by
    simp only [List.length_append, List.length_cons, i64, List.length_nil]
    omega
  refine ⟨?_, ?_, ?_, ?_⟩
  · simp only [List.mem_append, not_or]
    exact ⟨h, by decide⟩
  all_goals
    intro he
    rw [he] at hlength
    simp at hlength

theorem normal_generated (h : Normal name) : Normal (name ++ '.' :: i64) := normal_append_i64 h.1

theorem isDatabaseName_generated (h : Normal name) :
    isDatabaseName (name ++ '.' :: i64) = true := by
  rw [isDatabaseName, extensionOf, splitName_append h.2.1 (by decide)]
  simp only [Option.any_some]
  decide

theorem isDatabaseName_unpacked (h : Normal name) :
    isDatabaseName (withExtension name id0) = true := by
  rw [isDatabaseName, extensionOf, withExtension, if_neg (by decide),
    splitName_append (stemOf_ne_nil h.2.1) (by decide)]
  simp only [Option.any_some]
  decide

theorem isDatabaseName_of_packed (h : isPackedName name = true) : isDatabaseName name = true := by
  unfold isPackedName at h
  unfold isDatabaseName
  cases hext : extensionOf name with
  | none =>
    rw [hext] at h
    cases h
  | some ext =>
    rw [hext] at h
    simp only [Option.any_some] at h ⊢
    rw [h, Bool.true_or]

theorem normal_lockName (h : Normal name) : Normal (lockName name) := by
  unfold lockName
  split
  · exact normal_withExtension h (by decide) (by decide)
  · exact normal_withExtension (normal_generated h) (by decide) (by decide)

/- The lock of a path is beside it, under the name's own lock name. -/
theorem mcpLockPath_inDir (h : Normal name) :
    mcpLockPath (lockTargetPath (inDir dir name) none) = inDir dir (lockName name) := by
  rw [lockTargetPath, hasIdaDatabaseExtension_inDir h, lockName, mcpLockPath]
  split
  · exact setExtension_inDir h imcp
  · rw [Option.getD_none, idbPathForRawBinary_inDir]
    exact setExtension_inDir (normal_generated h) imcp

theorem lockName_unpacked (h : Normal name) (hpacked : isPackedName name = true) :
    lockName (withExtension name id0) = lockName name := by
  rw [lockName, lockName, if_pos (isDatabaseName_unpacked h),
    if_pos (isDatabaseName_of_packed hpacked)]
  exact withExtension_withExtension h.2.1 (by decide) (by decide) imcp

theorem lockName_generated (h : Normal name) (hraw : isDatabaseName name = false) :
    lockName (name ++ '.' :: i64) = lockName name := by
  rw [lockName, lockName, if_pos (isDatabaseName_generated h), hraw]
  simp

/-! ### One database, one lock -/

/- One path is the other under a name with the same lock. -/
theorem same_lock {renamed : List Char} (h : Normal renamed) (h' : Normal name')
    (hsame : same (inDir dir renamed) (inDir dir' name') = true)
    (hlock : lockName renamed = lockName name) :
    same (inDir dir (lockName name)) (inDir dir' (lockName name')) = true := by
  obtain ⟨rfl, hdirs⟩ := (same_inDir h h').mp hsame
  rw [← hlock]
  exact same_inDir_rename h (normal_lockName h) hdirs

theorem match_same_lock (h : Normal name) (h' : Normal name')
    (hmatch : databasePathsMatch (inDir dir name) (inDir dir' name') = true) :
    same (inDir dir (lockName name)) (inDir dir' (lockName name')) = true := by
  have hunpacked : ∀ {d d' : Option Path} {n n' : List Char}, Normal n → Normal n' →
      (unpackedId0Path (inDir d n)).any (same · (inDir d' n')) = true →
      same (inDir d (lockName n)) (inDir d' (lockName n')) = true := by
    intro d d' n n' hn hn' hany
    rw [unpackedId0Path_inDir hn] at hany
    split at hany
    · rename_i hpacked
      exact same_lock (normal_withExtension hn (by decide) (by decide)) hn' hany
        (lockName_unpacked hn hpacked)
    · cases hany
  have hraw : ∀ {d d' : Option Path} {n n' : List Char}, Normal n → Normal n' →
      rawInputMatchesGeneratedDatabase (inDir d n) (inDir d' n') = true →
      same (inDir d (lockName n)) (inDir d' (lockName n')) = true := by
    intro d d' n n' hn hn' hgen
    rw [rawInputMatchesGeneratedDatabase, hasIdaDatabaseExtension_inDir hn,
      idbPathForRawBinary_inDir, Bool.and_eq_true, Bool.not_eq_true'] at hgen
    exact same_lock (normal_generated hn) hn' hgen.2 (lockName_generated hn hgen.1)
  simp only [databasePathsMatch, Bool.or_eq_true] at hmatch
  rcases hmatch with (((hsame | hany) | hany) | hgen) | hgen
  · exact same_lock h h' hsame rfl
  · exact hunpacked h h' hany
  · rw [same_comm]
    exact hunpacked h' h hany
  · rw [same_comm]
    exact hraw h' h hgen
  · exact hraw h h' hgen

/- What the operating system says about the inputs. A path that resolves to a regular
file ends in the file's name: with a trailing separator or `.` it does not resolve. -/
structure FileSystem where
  regular : Path → Bool
  ends_in_name : ∀ p, regular p = true → ∃ dir name, p = inDir dir name ∧ Normal name

/- A file by its path, up to spelling. -/
abbrev FileId := Bool × List (List Char)

def fileId (p : Path) : FileId := (rooted p, components p)

/- The lock files of a host. Each has its own text at first, its own history of what the
processes did with it, and the state that led to; `shown` is its path in messages. -/
structure Host where
  shown : FileId → String
  text : FileId → Option (List Char)
  history : FileId → List LockFile.Act
  world : FileId → LockFile.World
  runs : ∀ file, Runs.run (LockFile.step (shown file)) (LockFile.init (text file))
    (history file) = some (world file)

/- The lock file that `handle_open` takes for a path, without `idb_out`. -/
def Host.lockOf (host : Host) (p : Path) : LockFile.World :=
  host.world (fileId (mcpLockPath (lockTargetPath p none)))

def Host.Careful (host : Host) : Prop :=
  ∀ file, Runs.Along (LockFile.step (host.shown file)) LockFile.Careful
    (LockFile.init (host.text file)) (host.history file)

/-- Two paths of one database have one lock, whatever the files on the host are. -/
theorem matching_paths_share_lock (fs : FileSystem) (a b : Path) :
    databasePathsMatch a b = databasePathsMatch b a ∧
      (fs.regular a = true → fs.regular b = true → databasePathsMatch a b = true →
        same (mcpLockPath (lockTargetPath a none)) (mcpLockPath (lockTargetPath b none)) = true ∧
        ∀ host : Host, host.Careful → ∀ pid pid', LockFile.Holds (host.lockOf a) pid →
          LockFile.Holds (host.lockOf b) pid' → pid = pid') := by
  refine ⟨databasePathsMatch_comm a b, fun ha hb hmatch => ?_⟩
  obtain ⟨dir, name, rfl, h⟩ := fs.ends_in_name a ha
  obtain ⟨dir', name', rfl, h'⟩ := fs.ends_in_name b hb
  have hlock := match_same_lock h h' hmatch
  refine ⟨?_, ?_⟩
  · rw [mcpLockPath_inDir h, mcpLockPath_inDir h']
    exact hlock
  · intro host hcareful pid pid' hp hp'
    have hfile : host.lockOf (inDir dir name) = host.lockOf (inDir dir' name') := by
      simp only [same, Bool.and_eq_true, decide_eq_true_eq] at hlock
      simp only [Host.lockOf, fileId, mcpLockPath_inDir h, mcpLockPath_inDir h', hlock.1, hlock.2]
    rw [← hfile] at hp'
    exact (LockFile.careful_run_inv (hcareful _) (host.runs _)).holders_eq hp hp'

/- A packed database and its unpacked part, and the host with one history of their lock. -/
def packed : Path := ['d', 'b', '.', 'i', '6', '4']
def unpacked : Path := ['d', 'b', '.', 'i', 'd', '0']
def lockFile : FileId := fileId ['d', 'b', '.', 'i', 'm', 'c', 'p']

def twoFiles : FileSystem where
  regular p := p = packed || p = unpacked
  ends_in_name p hp := by
    have hcases : p = packed ∨ p = unpacked := by simpa using hp
    rcases hcases with rfl | rfl
    · exact ⟨none, packed, rfl, by decide⟩
    · exact ⟨none, unpacked, rfl, by decide⟩

def oneHistory (as : List LockFile.Act) (w : LockFile.World)
    (h : Runs.run (LockFile.step "db.imcp") (LockFile.init none) as = some w) : Host where
  shown _ := "db.imcp"
  text _ := none
  history file := if file = lockFile then as else []
  world file := if file = lockFile then w else LockFile.init none
  runs file := by
    by_cases hfile : file = lockFile
    · rw [if_pos hfile, if_pos hfile]
      exact h
    · rw [if_neg hfile, if_neg hfile]
      rfl

theorem lockOf_oneHistory {as : List LockFile.Act} {w : LockFile.World}
    (h : Runs.run (LockFile.step "db.imcp") (LockFile.init none) as = some w) :
    (oneHistory as w h).lockOf packed = w ∧ (oneHistory as w h).lockOf unpacked = w := by
  have hfiles : fileId (mcpLockPath (lockTargetPath packed none)) = lockFile ∧
      fileId (mcpLockPath (lockTargetPath unpacked none)) = lockFile := by decide
  simp only [Host.lockOf, hfiles.1, hfiles.2, oneHistory, if_true, and_self]

theorem matching_paths_share_lock_taken_over :
    ∃ w, Runs.run (LockFile.step "db.imcp") (LockFile.init none) LockFile.takenOver = some w ∧
      LockFile.Holds w 2 ∧ ∀ pid, LockFile.Holds w pid → pid = 2 := by
  obtain ⟨w, hw, h2⟩ := LockFile.takenOver_held
  have hcareful : (oneHistory LockFile.takenOver w hw).Careful := by
    intro file
    by_cases hfile : file = lockFile
    · simp only [oneHistory, if_pos hfile]
      exact LockFile.takenOver_careful
    · simp only [oneHistory, if_neg hfile]
      trivial
  obtain ⟨hpacked, hunpacked⟩ := lockOf_oneHistory hw
  obtain ⟨-, hshare⟩ := (matching_paths_share_lock twoFiles packed unpacked).2 (by decide)
    (by decide) (by decide)
  refine ⟨w, hw, h2, fun pid hpid => ?_⟩
  rw [← hpacked] at hpid
  rw [← hunpacked] at h2
  exact hshare _ hcareful pid 2 hpid h2

/- The two spellings share their lock, and the lock has two holders. -/
theorem matching_paths_two_holders :
    databasePathsMatch packed unpacked = true ∧ ∃ host : Host,
      LockFile.Holds (host.lockOf packed) 2 ∧ LockFile.Holds (host.lockOf unpacked) 3 := by
  obtain ⟨w, hw, h2, h3⟩ := LockFile.lockedOrphan_held
  obtain ⟨hpacked, hunpacked⟩ := lockOf_oneHistory hw
  refine ⟨by decide, oneHistory LockFile.lockedOrphan w hw, ?_, ?_⟩
  · rw [hpacked]
    exact h2
  · rw [hunpacked]
    exact h3

end IdaHeadless.Database
