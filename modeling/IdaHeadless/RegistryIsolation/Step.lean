import IdaHeadless.Radix
import IdaHeadless.Runs
import IdaHeadless.Tasks
import Mathlib.Algebra.Group.Nat.Defs

/-!
# Registry snapshots (ida/registry_isolation.rs)

Processes of one user prepare private copies of the IDA settings below one registry key, first
reaping the copies that earlier processes have left there, and delete their own when they end.
Each system call is a step of its own and the steps of all processes interleave freely; processes
die in between, and their pids are given out again. A process runs one `prepare`, on the thread
that initializes the library.

Windows' part of a step is its outcome: whether a call fails, which key a new one comes after,
what a failed call has left of a tree, and whether it can be told that a process has ended. The
registry compares names without case; the names here are the ones it shows.
-/

namespace IdaHeadless.RegistryIsolation

abbrev Name := List Char

/-- The keys and values below a key, by their paths. -/
abbrev Tree := List String

/-! ### Names -/

/-- The `uuid` crate: what `Display` writes, `parse_str` reads back. -/
structure Uuids where
  toString : ℕ → List Char
  parseStr : List Char → Option ℕ
  parseStr_toString : ∀ id < 2 ^ 128, parseStr (toString id) = some id

inductive SnapshotOwner where
  | process (pid : ℕ)
  | unknown
  deriving DecidableEq

def snapshotName (U : Uuids) (pid id : ℕ) : Name := Nat.toDigits 10 pid ++ '-' :: U.toString id

/- `str::split_once`. -/
def splitOnce (c : Char) : List Char → Option (List Char × List Char)
  | [] => none
  | d :: ds => if d = c then some ([], ds) else (splitOnce c ds).map fun p => (d :: p.1, p.2)

def snapshotOwner (U : Uuids) (name : Name) : SnapshotOwner :=
  match splitOnce '-' name with
  | none => .unknown
  | some (pid, id) =>
    match Radix.parseUnsigned 10 (2 ^ 32) pid with
    | none => .unknown
    | some pid => if (U.parseStr id).isSome then .process pid else .unknown

theorem splitOnce_append {c : Char} {before : List Char} (h : c ∉ before) (after : List Char) :
    splitOnce c (before ++ c :: after) = some (before, after) := by
  induction before with
  | nil => simp [splitOnce]
  | cons d ds ih =>
    have hd : ¬ d = c := fun heq => h (heq ▸ List.mem_cons_self)
    have hds : c ∉ ds := fun hmem => h (List.mem_cons_of_mem d hmem)
    rw [List.cons_append, splitOnce, if_neg hd, ih hds]
    rfl

theorem snapshotOwner_snapshotName (U : Uuids) {pid id : ℕ} (hpid : pid < 2 ^ 32)
    (hid : id < 2 ^ 128) : snapshotOwner U (snapshotName U pid id) = .process pid := by
  have hdash : '-' ∉ Nat.toDigits 10 pid := Text.not_mem_digits (by decide)
  rw [snapshotOwner, snapshotName, splitOnce_append hdash]
  simp only [Radix.parse_decimal hpid, U.parseStr_toString id hid, Option.isSome_some,
    if_true]

/- What `Display` writes of an id with 32 digits; of the other forms that `parse_str` takes
none is read. -/
def hyphenated (digits : List Char) : List Char :=
  digits.take 8 ++ '-' :: ((digits.drop 8).take 4 ++ '-' :: ((digits.drop 12).take 4 ++
    '-' :: ((digits.drop 16).take 4 ++ '-' :: digits.drop 20)))

theorem filter_hyphenated {digits : List Char} (h : '-' ∉ digits) :
    (hyphenated digits).filter (· ≠ '-') = digits := by
  have hkeep : ∀ part : List Char, part ⊆ digits → part.filter (· ≠ '-') = part := by
    intro part hpart
    rw [List.filter_eq_self]
    intro c hc
    simpa using fun heq : c = '-' => h (heq ▸ hpart hc)
  have htake : ∀ m n, (digits.drop m).take n ⊆ digits :=
    fun m n => List.Subset.trans (List.take_subset _ _) (List.drop_subset _ _)
  simp only [hyphenated, List.filter_append, List.filter_cons_of_neg, ne_eq, not_true_eq_false,
    decide_false, Bool.false_eq_true, not_false_eq_true]
  rw [hkeep _ (List.take_subset 8 digits), hkeep _ (htake 8 4), hkeep _ (htake 12 4),
    hkeep _ (htake 16 4), hkeep _ (List.drop_subset 20 digits)]
  have hdrop : ∀ m, (digits.drop m).take 4 ++ digits.drop (m + 4) = digits.drop m := by
    intro m
    rw [← List.drop_drop, List.take_append_drop]
  rw [hdrop 16, hdrop 12, hdrop 8, List.take_append_drop]

def hyphenatedUuids : Uuids where
  toString := fun id => hyphenated (Nat.toDigits 16 id)
  parseStr := fun cs =>
    (Radix.digitsValue 16 0 (cs.filter (· ≠ '-'))).filter fun id =>
      hyphenated (Nat.toDigits 16 id) = cs
  parseStr_toString := by
    intro id _
    have hdash : '-' ∉ Nat.toDigits 16 id := by
      intro hmem
      have hdigit := Radix.digit_of_mem (Radix.digitsValue_hex id) hmem
      revert hdigit
      decide
    rw [filter_hyphenated hdash, Radix.digitsValue_hex]
    simp

/-! ### The isolation root -/

structure Key where
  name : Name
  tree : Tree
  deriving DecidableEq

def treeOf (keys : List Key) (name : Name) : Option Tree :=
  (keys.find? fun key => key.name = name).map Key.tree

/- Calls about a key that is not there say `ERROR_FILE_NOT_FOUND`, and change nothing. -/
def setTree (keys : List Key) (name : Name) (tree : Tree) : List Key :=
  keys.map fun key => if key.name = name then { key with tree := tree } else key

def removeKey (keys : List Key) (name : Name) : List Key :=
  keys.filter fun key => key.name ≠ name

/-- `names` are those that a key has ever had. -/
structure Registry where
  keys : List Key
  names : List Name

def Registry.setTree (r : Registry) (name : Name) (tree : Tree) : Registry :=
  { r with keys := RegistryIsolation.setTree r.keys name tree }

def Registry.removeKey (r : Registry) (name : Name) : Registry :=
  { r with keys := RegistryIsolation.removeKey r.keys name }

/- A new key may come anywhere among the others. -/
def Registry.createKey (r : Registry) (place : ℕ) (name : Name) : Registry where
  keys := r.keys.take place ++ ⟨name, []⟩ :: r.keys.drop place
  names := name :: r.names

/-! ### Processes -/

def idaRegistryPath : String := "Software\\Hex-Rays\\IDA"

/- The next system call of a process. From `createIda` on it has its own key, in which it has
put `tree`; at `isolated` its registry is redirected to it and the runtime works there. -/
inductive Pc where
  | openRoot
  | enumKey (index : ℕ)
  | checkOwner (index : ℕ) (name : Name) (owner : ℕ)
  | reapTree (index : ℕ) (name : Name)
  | reapKey (index : ℕ) (name : Name)
  | createKey
  | createIda (name : Name) (tree : Tree)
  | copyTree (name : Name) (tree : Tree)
  | overrideKey (name : Name) (tree : Tree)
  | isolated (name : Name) (tree : Tree)
  | restoreKey (name : Name) (tree : Tree)
  | dropTree (name : Name) (tree : Tree)
  | dropKey (name : Name)
  | ended
  deriving DecidableEq

structure Process where
  pid : ℕ
  pc : Pc
  deriving DecidableEq

abbrev World := Tasks.World Registry Process

inductive Outcome where
  | ok
  | failed
  | leftTree (tree : Tree)
  | hasEnded
  | created (place id : ℕ)
  | copied (tree : Tree)

inductive Act where
  | start (pid : ℕ)
  | die (t : ℕ)
  | write (t : ℕ) (tree : Tree)
  | finish (t : ℕ)
  | advance (t : ℕ) (o : Outcome)

/-! ### `prepare` and `drop`, call by call -/

/- `process_is_running` answers `false` of no process that runs; of one that has ended it may
answer `true`. -/
def advance (U : Uuids) (runs : ℕ → Bool) (pid : ℕ) (r : Registry) :
    Pc → Outcome → Option (Registry × Pc)
  | .openRoot, .ok => some (r, .enumKey 0)
  | .openRoot, .failed => some (r, .ended)
  | .enumKey index, .ok =>
    match r.keys[index]? with
    | none => some (r, .createKey)
    | some key =>
      match snapshotOwner U key.name with
      | .process owner => some (r, .checkOwner index key.name owner)
      | .unknown => some (r, .enumKey (index + 1))
  | .enumKey _, .failed => some (r, .createKey)
  | .checkOwner index _ _, .ok => some (r, .enumKey (index + 1))
  | .checkOwner index name owner, .hasEnded =>
    if runs owner then none else some (r, .reapTree index name)
  | .reapTree index name, .ok => some (r.setTree name [], .reapKey index name)
  | .reapTree index name, .leftTree tree => some (r.setTree name tree, .enumKey (index + 1))
  -- What came after a deleted key has its index now.
  | .reapKey index name, .ok => some (r.removeKey name, .enumKey index)
  | .reapKey index _, .failed => some (r, .enumKey (index + 1))
  -- `Uuid::new_v4` gives no id twice.
  | .createKey, .created place id =>
    let name := snapshotName U pid id
    if r.names.contains name || 2 ^ 128 ≤ id then none
    else some (r.createKey place name, .createIda name [])
  | .createKey, .failed => some (r, .ended)
  | .createIda name _, .ok =>
    some (r.setTree name [idaRegistryPath], .copyTree name [idaRegistryPath])
  | .createIda name tree, .failed => some (r, .dropTree name tree)
  | .copyTree name _, .copied tree => some (r.setTree name tree, .overrideKey name tree)
  -- A first run has no settings to copy.
  | .copyTree name tree, .ok => some (r, .overrideKey name tree)
  | .copyTree name _, .leftTree tree => some (r.setTree name tree, .dropTree name tree)
  | .overrideKey name tree, .ok => some (r, .isolated name tree)
  | .overrideKey name tree, .failed => some (r, .dropTree name tree)
  | .restoreKey name tree, .ok => some (r, .dropTree name tree)
  -- The path is then looked up below the snapshot, where it is not found.
  | .restoreKey _ _, .failed => some (r, .ended)
  | .dropTree name _, .ok => some (r.setTree name [], .dropKey name)
  | .dropTree name _, .leftTree tree => some (r.setTree name tree, .ended)
  | .dropKey name, .ok => some (r.removeKey name, .ended)
  | .dropKey _, .failed => some (r, .ended)
  | _, _ => none

/-! ### Runs -/

def runs (w : World) (pid : ℕ) : Bool :=
  (List.range w.next).any fun t => (w.tasks t).any fun p => p.pid == pid

def step (U : Uuids) (w : World) : Act → Option World
  | .start pid =>
    if pid < 2 ^ 32 ∧ runs w pid = false then some (w.spawn [⟨pid, .openRoot⟩]) else none
  | .die t =>
    if (w.tasks t).isSome then some { w with tasks := Function.update w.tasks t none } else none
  | .write t tree =>
    match w.tasks t with
    | some ⟨pid, .isolated name _⟩ =>
      some (w.resume t ⟨w.mem.setTree name tree, ⟨pid, .isolated name tree⟩, []⟩)
    | _ => none
  | .finish t =>
    match w.tasks t with
    | some ⟨pid, .isolated name tree⟩ =>
      some (w.resume t ⟨w.mem, ⟨pid, .restoreKey name tree⟩, []⟩)
    | _ => none
  | .advance t o =>
    match w.tasks t with
    | some p =>
      (advance U (runs w) p.pid w.mem p.pc o).map fun r => w.resume t ⟨r.1, ⟨p.pid, r.2⟩, []⟩
    | none => none

/- What earlier processes, other programs and the user have left there. -/
def init (keys : List Key) : World where
  mem := ⟨keys, keys.map Key.name⟩
  tasks := fun _ => none
  next := 0

end IdaHeadless.RegistryIsolation
