import IdaHeadless.Radix
import IdaHeadless.RecordLocks
import IdaHeadless.Runs
import IdaHeadless.Tasks
import IdaHeadless.ToolError
import Mathlib.Algebra.Group.Nat.Defs

/-!
# The lock file of a database (ida/lock.rs)

Processes of one host run the operations of `lock.rs` for one database path, so for
one lock file name. Each system call is a step of its own and the steps of all
threads interleave freely; processes start and die in between. An operation that
returns a lock leaves its thread holding it until one of the releases is called.
The operating system's part of a step, whether a call fails for a reason of its own,
is the step's outcome.
-/

namespace IdaHeadless.LockFile
open RecordLocks

abbrev Files := RecordLocks.Files (List Char)

/-! ### The text of the file -/

/- What `acquire_mcp_lock` reads from its environment for the text. -/
structure Env where
  host : List Char
  exe : List Char
  openedAt : ℕ
  deriving DecidableEq

def pidKey : List Char := ['p', 'i', 'd', '=']
def hostKey : List Char := ['h', 'o', 's', 't', '=']
def exeKey : List Char := ['e', 'x', 'e', '=']
def openedAtKey : List Char := ['o', 'p', 'e', 'n', 'e', 'd', '_', 'a', 't', '=']

/- The `info` of `acquire_mcp_lock`. -/
def info (pid : ℕ) (env : Env) : List Char :=
  pidKey ++ Nat.toDigits 10 pid ++ '\n' :: (hostKey ++ env.host ++ '\n' :: (exeKey ++ env.exe ++
    '\n' :: (openedAtKey ++ Nat.toDigits 10 env.openedAt ++ ['\n'])))

/- `read_lock_file_pid`, of the text of the file: the first line with the key decides. -/
def readLockFilePid (text : List Char) : Option ℕ :=
  ((Text.lines text).findSome? (Text.stripStart pidKey)).bind fun rest =>
    Radix.parseUnsigned 10 (2 ^ 32) (Text.trim rest)

/- A write at the start of the file leaves what lies behind it. -/
def overwrite (text old : List Char) : List Char := text ++ old.drop text.length

/-! ### State -/

structure Mem where
  fs : Files
  alive : ℕ → Bool

structure StaleLockInfo where
  path : String
  pid : ℕ
  reason : String
  deriving DecidableEq

/- How an operation ended. -/
inductive Exit where
  | acquired (err : ToolError)
  | released
  | cleaned (stale : Option StaleLockInfo)
  | removed
  deriving DecidableEq

/- Who reads the pid in the file: `clean_stale_mcp_lock`, or `remove_mcp_lock_for_pid`
of the pid of a killed worker. -/
inductive Reader where
  | cleanStale
  | removeForPid (pid : ℕ)
  deriving DecidableEq

/- The next system call of a thread; `fd` is a descriptor, by the inode it is open on.
At `held` the thread's caller has the `McpLock` (or the parts it was taken into). -/
inductive Pc where
  | acquireOpen (env : Env)
  | acquireLock (env : Env) (fd : ℕ)
  | acquireBlocked (fd : ℕ)
  | acquireRefused (fd pid : ℕ)
  | acquireTruncate (env : Env) (fd : ℕ)
  | acquireWrite (env : Env) (fd : ℕ)
  | held (fd : ℕ)
  | releaseUnlink (fd : ℕ)
  | releaseClose (fd : ℕ)
  | staleExists
  | readOpen (r : Reader)
  | readPid (r : Reader) (fd : ℕ)
  | readClose (r : Reader) (fd : ℕ) (pid : Option ℕ)
  | staleKill (pid : ℕ)
  | staleOpen
  | staleLock (fd : ℕ)
  | staleBlocked (fd : ℕ)
  | staleClose (fd : ℕ) (locked : Bool)
  | staleUnlink (pid : Option ℕ)
  | removeUnlink (pid : ℕ)
  | done (exit : Exit)
  deriving DecidableEq

structure Thread where
  pid : ℕ
  pc : Pc
  deriving DecidableEq

abbrev World := Tasks.World Mem Thread

/- What the operating system adds to a step: the call went through, it failed, or
`write_all` failed after `n` characters. -/
inductive Outcome where
  | ok
  | err (message : String)
  | wrote (n : ℕ)

/- The three ways to give a lock back. -/
inductive Releaser where
  | releaseMcpLock
  | releaseMcpLockFile
  | mcpLockDrop

inductive Act where
  | start (pid : ℕ)
  | die (pid : ℕ)
  | acquire (pid : ℕ) (env : Env)
  | cleanStale (pid : ℕ)
  | removeForPid (pid : ℕ) (target : Option ℕ)
  | release (t : ℕ) (r : Releaser)
  | advance (t : ℕ) (o : Outcome)

/-! ### The operations, call by call -/

/- `remove_file`, and whether it succeeded. -/
def removeFile (fs : Files) : Outcome → Files × Bool
  | .err _ => (fs, false)
  | _ =>
    match fs.link with
    | some _ => (fs.unlink, true)
    | none => (fs, false)

/- `open` of an existing file. -/
def openFile (fs : Files) : Outcome → Option ℕ
  | .err _ => none
  | _ => fs.link

/- `F_SETLK` in `try_lock_file`. -/
def setLock (fs : Files) (pid fd : ℕ) : Outcome → Option Files
  | .err _ => none
  | _ => if fs.Free pid fd then some (fs.lock pid fd) else none

/- `locked_by_pid_from_fd(..).unwrap_or(0)`: the pid whose lock is in the way. -/
def lockedByPid (fs : Files) (pid fd : ℕ) : Outcome → ℕ
  | .err _ => 0
  | _ => if fs.owner fd = some pid then 0 else (fs.owner fd).getD 0

/- `is_process_running`. Signal 0 reaches every live process, and pid 0 stands for the
caller's own group; it may also reach a zombie, or a group that a number no process
has stands for. -/
def isProcessRunning (s : Mem) (pid : ℕ) : Outcome → Bool
  | .err _ => s.alive pid || pid == 0
  | _ => true

def lockedMessage (path : String) (pid : ℕ) : String :=
  if 0 < pid then path ++ " (locked by pid " ++ toString pid ++ ")" else path

/- `release_mcp_lock`, `release_mcp_lock_file` and the drop of an `McpLock` all unlink
the name and then close the file. -/
def Releaser.first (fd : ℕ) : Releaser → Pc
  | .releaseMcpLock => .releaseUnlink fd
  | .releaseMcpLockFile => .releaseUnlink fd
  | .mcpLockDrop => .releaseUnlink fd

/- What follows `read_lock_file_pid` in its two callers. -/
def Reader.next : Reader → Option ℕ → Pc
  | .cleanStale, some pid => .staleKill pid
  | .cleanStale, none => .staleOpen
  | .removeForPid target, pid => if pid = some target then .removeUnlink target else .done .removed

def staleReason : Option ℕ → String
  | some pid => "process " ++ toString pid ++ " is no longer running"
  | none => "no valid PID and no fcntl lock held"

def advance (path : String) (s : Mem) (pid : ℕ) (o : Outcome) : Pc → Option (Mem × Pc)
  | .acquireOpen env =>
    match o with
    | .err e => some (s, .done (.acquired (.openFailed (path ++ ": " ++ e))))
    | _ =>
      let opened := s.fs.openOrCreate []
      some ({ s with fs := opened.1 }, .acquireLock env opened.2)
  | .acquireLock env fd =>
    match setLock s.fs pid fd o with
    | some fs => some ({ s with fs := fs }, .acquireTruncate env fd)
    | none => some (s, .acquireBlocked fd)
  | .acquireBlocked fd => some (s, .acquireRefused fd (lockedByPid s.fs pid fd o))
  | .acquireRefused fd other =>
    some ({ s with fs := s.fs.close pid fd },
      .done (.acquired (.databaseLocked (lockedMessage path other))))
  | .acquireTruncate env fd =>
    match o with
    | .err _ => some (s, .acquireWrite env fd)
    | _ => some ({ s with fs := s.fs.write fd [] }, .acquireWrite env fd)
  | .acquireWrite env fd =>
    let text := match o with
      | .ok => info pid env
      | .err _ => []
      | .wrote n => (info pid env).take n
    some ({ s with fs := s.fs.write fd (overwrite text (s.fs.content fd)) }, .held fd)
  | .held _ => none
  | .releaseUnlink fd => some ({ s with fs := (removeFile s.fs o).1 }, .releaseClose fd)
  | .releaseClose fd => some ({ s with fs := s.fs.close pid fd }, .done .released)
  | .staleExists =>
    some (s, if (openFile s.fs o).isSome then .readOpen .cleanStale else .done (.cleaned none))
  | .readOpen r =>
    match openFile s.fs o with
    | some fd => some (s, .readPid r fd)
    | none => some (s, r.next none)
  | .readPid r fd =>
    match o with
    | .err _ => some (s, .readClose r fd none)
    | _ => some (s, .readClose r fd (readLockFilePid (s.fs.content fd)))
  | .readClose r fd found => some ({ s with fs := s.fs.close pid fd }, r.next found)
  | .staleKill other =>
    some (s, if isProcessRunning s other o then .done (.cleaned none)
      else .staleUnlink (some other))
  | .staleOpen =>
    match openFile s.fs o with
    | some fd => some (s, .staleLock fd)
    | none => some (s, .done (.cleaned none))
  | .staleLock fd =>
    match setLock s.fs pid fd o with
    | some fs => some ({ s with fs := fs }, .staleClose fd true)
    | none => some (s, .staleBlocked fd)
  | .staleBlocked fd => some (s, .staleClose fd false)
  | .staleClose fd locked =>
    some ({ s with fs := s.fs.close pid fd },
      if locked then .staleUnlink none else .done (.cleaned none))
  | .staleUnlink other =>
    let removed := removeFile s.fs o
    some ({ s with fs := removed.1 },
      .done (.cleaned (if removed.2 then some ⟨path, other.getD 0, staleReason other⟩ else none)))
  | .removeUnlink _ => some ({ s with fs := (removeFile s.fs o).1 }, .done .removed)
  | .done _ => none

/-! ### Runs -/

/- A new thread of the live process `pid`. -/
def begin (w : World) (pid : ℕ) (pc : Pc) : Option World :=
  if w.mem.alive pid then some (w.spawn [⟨pid, pc⟩]) else none

/- The threads of a process that died. -/
def survivors (pid : ℕ) (tasks : ℕ → Option Thread) (t : ℕ) : Option Thread :=
  (tasks t).filter fun th => th.pid ≠ pid

def step (path : String) (w : World) : Act → Option World
  | .start pid =>
    if 0 < pid ∧ pid < 2 ^ 31 ∧ w.mem.alive pid = false then
      some { w with mem := { w.mem with alive := Function.update w.mem.alive pid true } }
    else none
  | .die pid =>
    if w.mem.alive pid then
      some { w with
        mem := ⟨w.mem.fs.exit pid, Function.update w.mem.alive pid false⟩
        tasks := survivors pid w.tasks }
    else none
  | .acquire pid env => begin w pid (.acquireOpen env)
  | .cleanStale pid => begin w pid .staleExists
  | .removeForPid pid none => begin w pid (.done .removed)
  | .removeForPid pid (some target) => begin w pid (.readOpen (.removeForPid target))
  | .release t r =>
    match w.tasks t with
    | some ⟨pid, .held fd⟩ => some (w.resume t ⟨w.mem, ⟨pid, r.first fd⟩, []⟩)
    | _ => none
  | .advance t o =>
    match w.tasks t with
    | some th =>
      (advance path w.mem th.pid o th.pc).map fun r => w.resume t ⟨r.1, ⟨th.pid, r.2⟩, []⟩
    | none => none

/- No process runs yet; a lock file may be there, with any text. -/
def init (text : Option (List Char)) : World where
  mem :=
    { fs :=
        { link := text.map fun _ => 0
          next := 1
          content := fun _ => text.getD []
          owner := fun _ => none }
      alive := fun _ => false }
  tasks := fun _ => none
  next := 0

end IdaHeadless.LockFile
