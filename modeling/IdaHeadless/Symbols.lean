import IdaHeadless.Address

/-!
# Resolving names (handlers/mod.rs, handlers/functions.rs, handlers/disasm.rs)

Four handlers turn a name into an address. Each goes through the symbols in the order in which
the database lists them and takes the first whose name is the wanted one or contains it, so a
symbol that merely contains the name wins if it is listed before the one that bears it.
-/

namespace IdaHeadless.Symbols

open Text Radix Address

/-! ### The database -/

structure Function where
  name : Option (List Char)
  startAddress : ℕ
  len : ℕ

structure NameItem where
  name : List Char
  address : ℕ

/-- What the handlers read of a database. -/
structure Idb where
  functions : List Function
  names : List NameItem
  functionAt : ℕ → Option Function
  disasmLine : ℕ → Option (List Char)
  insnAt : ℕ → Option ℕ
  nextHead : ℕ → Option ℕ

/- `str::contains`. -/
def contains (text name : List Char) : Bool := name <:+: text

/-! ### The handlers -/

/- `func_name == name || func_name.contains(name)`, for a function that has a name. -/
def functionNamed (name : List Char) (func : Function) : Bool :=
  func.name.any fun funcName => funcName = name || contains funcName name

def resolveAddressByName (idb : Option Idb) (name : List Char) : Except ToolError ℕ := do
  let db ← idb.elim (.error .noDatabaseOpen) .ok
  match db.functions.find? (functionNamed name) with
  | some func => .ok func.startAddress
  | none =>
    match db.names.find? fun item => item.name = name || contains item.name name with
    | some item => .ok item.address
    | none => .error (.functionNameNotFound (String.ofList name))

structure FunctionInfo where
  address : String
  name : List Char
  size : ℕ
  deriving DecidableEq

def handleResolveFunction (idb : Option Idb) (name : List Char) :
    Except ToolError FunctionInfo := do
  let db ← idb.elim (.error .noDatabaseOpen) .ok
  match db.functions.find? (functionNamed name) with
  | some func => .ok ⟨hexAddr func.startAddress, func.name.getD [], func.len⟩
  | none => .error (.functionNameNotFound (String.ofList name))

/-- The address after that of a line. -/
def nextLine (db : Idb) (addr : ℕ) : Option ℕ :=
  match db.insnAt addr with
  | some len => some (addr + len)
  | none => (db.nextHead addr).filter (addr < ·)

def disasmLines (db : Idb) : ℕ → ℕ → List (List Char)
  | 0, _ => []
  | count + 1, addr =>
    match db.disasmLine addr with
    | none => []
    | some line =>
      ((hexAddr addr).toList ++ [':', '\t'] ++ line) ::
        match nextLine db addr with
        | none => []
        | some next => disasmLines db count next

def handleDisasm (idb : Option Idb) (addr count : ℕ) : Except ToolError (List Char) := do
  let db ← idb.elim (.error .noDatabaseOpen) .ok
  if disasmLines db count addr = [] then .error (.addressOutOfRange addr)
  else .ok (['\n'].intercalate (disasmLines db count addr))

def handleDisasmByName (idb : Option Idb) (name : List Char) (count : ℕ) :
    Except ToolError (List Char) := do
  let db ← idb.elim (.error .noDatabaseOpen) .ok
  match db.functions.find? (functionNamed name) with
  | some func => handleDisasm idb func.startAddress count
  | none => .error (.functionNameNotFound (String.ofList name))

/- `sub_1000` stands in for a missing name. -/
def listedName (func : Function) : List Char :=
  func.name.getD (['s', 'u', 'b', '_'] ++ Nat.toDigits 16 func.startAddress)

def functionInfo (func : Function) : FunctionInfo :=
  ⟨hexAddr func.startAddress, listedName func, func.len⟩

inductive LookupOutcome where
  | result (info : FunctionInfo)
  | error (text : String)
  deriving DecidableEq

structure LookupResult where
  query : List Char
  outcome : LookupOutcome
  deriving DecidableEq

def lookupFunc (db : Idb) (query : List Char) : LookupOutcome :=
  let found :=
    match parseAddress query with
    | .ok addr => (db.functionAt addr).map functionInfo
    | .error _ =>
      (db.functions.map functionInfo).find? fun f => f.name = query || contains f.name query
  found.elim (.error "Function not found") .result

def handleLookupFuncs (idb : Option Idb) (queries : List (List Char)) :
    Except ToolError (List LookupResult) := do
  let db ← idb.elim (.error .noDatabaseOpen) .ok
  .ok (queries.map fun query => ⟨query, lookupFunc db query⟩)

/-! ### First matches -/

/-- A name and the address it stands for. -/
structure Symbol where
  name : List Char
  address : ℕ

variable {syms : List Symbol} {name : List Char} {db : Idb} {a : ℕ}

def firstMatch (syms : List Symbol) (name : List Char) : Option Symbol :=
  syms.find? fun s => contains s.name name

/-- A symbol named `name` stands at this address. -/
def NamedAt (syms : List Symbol) (name : List Char) (a : ℕ) : Prop :=
  ∃ s ∈ syms, s.name = name ∧ s.address = a

/-- Some symbol bears the name, but the first one that contains it stands elsewhere. -/
def StrayFirst (syms : List Symbol) (name : List Char) : Prop :=
  (∃ a, NamedAt syms name a) ∧ ∃ before s after, syms = before ++ s :: after ∧
    (∀ t ∈ before, ¬ name <:+: t.name) ∧ name <:+: s.name ∧ ¬ NamedAt syms name s.address

theorem contains_iff {text : List Char} : contains text name = true ↔ name <:+: text := by
  simp [contains]

theorem named_or_contains (text name : List Char) :
    (text = name || contains text name) = contains text name := by
  by_cases h : text = name
  · have hself : contains text name = true := contains_iff.mpr (by rw [h])
    simp [hself]
  · simp [h]

theorem firstMatch_eq_none : firstMatch syms name = none ↔ ∀ s ∈ syms, ¬ name <:+: s.name := by
  simp [firstMatch, contains]

/- The first match is what is wanted unless a stray symbol comes first. -/
theorem firstMatch_named_iff (h : ∃ a, NamedAt syms name a) :
    (∃ a, NamedAt syms name a ∧ (firstMatch syms name).map Symbol.address = some a) ↔
      ¬ StrayFirst syms name := by
  constructor
  · rintro ⟨a, hnamed, hfirst⟩ ⟨-, before, s, after, rfl, hbefore, hs, hstray⟩
    have hfind : firstMatch (before ++ s :: after) name = some s := by
      rw [firstMatch, List.find?_eq_some_iff_append]
      refine ⟨contains_iff.mpr hs, before, after, rfl, ?_⟩
      intro t ht
      simpa [contains] using hbefore t ht
    rw [hfind] at hfirst
    have haddr : s.address = a := Option.some.inj hfirst
    rw [haddr] at hstray
    exact hstray hnamed
  · intro hnot
    cases hfirst : firstMatch syms name with
    | none =>
      obtain ⟨a, s, hs, rfl, -⟩ := h
      exact absurd List.infix_rfl (firstMatch_eq_none.mp hfirst s hs)
    | some s =>
      obtain ⟨hs, before, after, hsplit, hbefore⟩ := List.find?_eq_some_iff_append.mp hfirst
      by_cases hnamed : NamedAt syms name s.address
      · exact ⟨s.address, hnamed, rfl⟩
      · refine absurd ⟨h, before, s, after, hsplit, ?_, contains_iff.mp hs, hnamed⟩ hnot
        intro t ht
        simpa [contains] using hbefore t ht

/-! ### The handlers take the first match -/

def namedFunctions (db : Idb) : List Symbol :=
  db.functions.filterMap fun func => func.name.map fun name => ⟨name, func.startAddress⟩

def symbols (db : Idb) : List Symbol :=
  namedFunctions db ++ db.names.map fun item => ⟨item.name, item.address⟩

def listedFunctions (db : Idb) : List Symbol :=
  db.functions.map fun func => ⟨listedName func, func.startAddress⟩

/-- The address a search ends at, or the error for a name that is not there. -/
def addressOf (name : List Char) (found : Option Symbol) : Except ToolError ℕ :=
  found.elim (.error (.functionNameNotFound (String.ofList name))) fun s => .ok s.address

/- Functions without a name are passed over. -/
theorem find_functionNamed (db : Idb) (name : List Char) :
    (∃ func s, db.functions.find? (functionNamed name) = some func ∧
      firstMatch (namedFunctions db) name = some s ∧ s.address = func.startAddress) ∨
    (db.functions.find? (functionNamed name) = none ∧
      firstMatch (namedFunctions db) name = none) := by
  have hpred : functionNamed name = fun func : Function =>
      (func.name.map fun n => (⟨n, func.startAddress⟩ : Symbol)).any
        fun s => contains s.name name := by
    funext func
    cases hname : func.name with
    | none => simp [functionNamed, hname]
    | some n =>
      simp only [functionNamed, hname, Option.any_some, Option.map_some, named_or_contains]
  have hfirst : firstMatch (namedFunctions db) name =
      (db.functions.find? (functionNamed name)).bind
        fun func => func.name.map fun n => (⟨n, func.startAddress⟩ : Symbol) := by
    rw [firstMatch, namedFunctions, List.find?_filterMap, hpred]
  rw [hfirst]
  cases hfind : db.functions.find? (functionNamed name) with
  | none => exact Or.inr ⟨rfl, rfl⟩
  | some func =>
    have hsome := List.find?_some hfind
    cases hname : func.name with
    | none => simp [functionNamed, hname] at hsome
    | some n => exact Or.inl ⟨func, ⟨n, func.startAddress⟩, rfl, by simp [hname], rfl⟩

theorem resolveAddressByName_eq (db : Idb) (name : List Char) :
    resolveAddressByName (some db) name = addressOf name (firstMatch (symbols db) name) := by
  have happend : firstMatch (symbols db) name =
      (firstMatch (namedFunctions db) name).or
        (firstMatch (db.names.map fun item => ⟨item.name, item.address⟩) name) :=
    List.find?_append
  have hnames : firstMatch (db.names.map fun item => ⟨item.name, item.address⟩) name =
      (db.names.find? fun item => contains item.name name).map
        fun item => ⟨item.name, item.address⟩ := List.find?_map
  simp only [resolveAddressByName, Option.elim_some, bind, Except.bind, named_or_contains]
  rw [happend]
  rcases find_functionNamed db name with ⟨func, s, hfind, hfirst, haddr⟩ | ⟨hfind, hfirst⟩
  · rw [hfind, hfirst]
    exact congrArg Except.ok haddr.symm
  · rw [hfind, hfirst, Option.none_or, hnames]
    cases db.names.find? fun item => contains item.name name with
    | none => rfl
    | some item => rfl

theorem handleResolveFunction_eq (db : Idb) (name : List Char) :
    (handleResolveFunction (some db) name).map FunctionInfo.address =
      (addressOf name (firstMatch (namedFunctions db) name)).map hexAddr := by
  simp only [handleResolveFunction, Option.elim_some, bind, Except.bind]
  rcases find_functionNamed db name with ⟨func, s, hfind, hfirst, haddr⟩ | ⟨hfind, hfirst⟩
  · rw [hfind, hfirst]
    exact congrArg (fun a => Except.ok (hexAddr a)) haddr.symm
  · rw [hfind, hfirst]
    rfl

theorem handleDisasmByName_eq (db : Idb) (name : List Char) (count : ℕ) :
    handleDisasmByName (some db) name count =
      (addressOf name (firstMatch (namedFunctions db) name)).bind
        fun a => handleDisasm (some db) a count := by
  simp only [handleDisasmByName, Option.elim_some, bind, Except.bind]
  rcases find_functionNamed db name with ⟨func, s, hfind, hfirst, haddr⟩ | ⟨hfind, hfirst⟩
  · rw [hfind, hfirst]
    exact congrArg (fun a => handleDisasm (some db) a count) haddr.symm
  · rw [hfind, hfirst]
    rfl

/-- The address that the outcome of a lookup shows. -/
def LookupOutcome.address : LookupOutcome → Option String
  | .result info => some info.address
  | .error _ => none

theorem lookupFunc_eq (db : Idb) {e : ToolError} (h : parseAddress name = .error e) :
    (lookupFunc db name).address =
      (firstMatch (listedFunctions db) name).map fun s => hexAddr s.address := by
  have hmatch : firstMatch (listedFunctions db) name =
      (db.functions.find? fun f => contains (listedName f) name).map
        fun f => ⟨listedName f, f.startAddress⟩ := List.find?_map
  have hinfo : ((db.functions.map functionInfo).find? fun f => contains f.name name) =
      (db.functions.find? fun f => contains (listedName f) name).map functionInfo :=
    List.find?_map
  simp only [lookupFunc, h, named_or_contains]
  rw [hmatch, hinfo]
  cases db.functions.find? fun f => contains (listedName f) name with
  | none => rfl
  | some f => rfl

/-! ### When the exact name wins -/

structure ExactWins (db : Idb) (name : List Char) : Prop where
  address : (∃ a, NamedAt (symbols db) name a) →
    ∃ a, NamedAt (symbols db) name a ∧ resolveAddressByName (some db) name = .ok a
  function : (∃ a, NamedAt (namedFunctions db) name a) →
    ∃ a, NamedAt (namedFunctions db) name a ∧
      (handleResolveFunction (some db) name).map FunctionInfo.address = .ok (hexAddr a)
  disasm : (∃ a, NamedAt (namedFunctions db) name a) →
    ∃ a, NamedAt (namedFunctions db) name a ∧
      ∀ count, handleDisasmByName (some db) name count = handleDisasm (some db) a count
  /- A query that is an address is not looked up by name. -/
  lookup : (∃ e, parseAddress name = .error e) → (∃ a, NamedAt (listedFunctions db) name a) →
    ∃ a, NamedAt (listedFunctions db) name a ∧
      ∀ queries results, handleLookupFuncs (some db) queries = .ok results →
        ∀ r ∈ results, r.query = name → r.outcome.address = some (hexAddr a)
  address_missing : resolveAddressByName (some db) name =
      .error (.functionNameNotFound (String.ofList name)) ↔
    ∀ s ∈ symbols db, ¬ name <:+: s.name
  function_missing : handleResolveFunction (some db) name =
      .error (.functionNameNotFound (String.ofList name)) ↔
    ∀ s ∈ namedFunctions db, ¬ name <:+: s.name
  disasm_missing : ∀ count, handleDisasmByName (some db) name count =
      .error (.functionNameNotFound (String.ofList name)) ↔
    ∀ s ∈ namedFunctions db, ¬ name <:+: s.name
  lookup_missing : (∃ e, parseAddress name = .error e) →
    ∀ queries results, handleLookupFuncs (some db) queries = .ok results →
      ∀ r ∈ results, r.query = name →
        (r.outcome = .error "Function not found" ↔ ∀ s ∈ listedFunctions db, ¬ name <:+: s.name)

theorem addressOf_eq_ok {found : Option Symbol} :
    addressOf name found = .ok a ↔ found.map Symbol.address = some a := by
  cases found with
  | none => simp [addressOf]
  | some s => simp [addressOf]

theorem addressOf_eq_missing {found : Option Symbol} :
    addressOf name found = .error (.functionNameNotFound (String.ofList name)) ↔ found = none := by
  cases found with
  | none => simp [addressOf]
  | some s => simp [addressOf]

/- The name is found where a symbol bears it, if any does. -/
theorem wins_iff :
    ((∃ a, NamedAt syms name a) →
      ∃ a, NamedAt syms name a ∧ (firstMatch syms name).map Symbol.address = some a) ↔
    ¬ StrayFirst syms name := by
  by_cases h : ∃ a, NamedAt syms name a
  · rw [forall_prop_of_true h]
    exact firstMatch_named_iff h
  · exact iff_of_true (fun ha => absurd ha h) fun hstray => h hstray.1

theorem mem_lookup_results {queries : List (List Char)} {results : List LookupResult}
    (h : handleLookupFuncs (some db) queries = .ok results) {r : LookupResult} (hr : r ∈ results)
    (hquery : r.query = name) : r.outcome = lookupFunc db name := by
  rw [← Except.ok.inj h] at hr
  obtain ⟨query, -, rfl⟩ := List.mem_map.mp hr
  rw [← hquery]

theorem lookupFunc_missing {e : ToolError} (h : parseAddress name = .error e) :
    lookupFunc db name = .error "Function not found" ↔
      firstMatch (listedFunctions db) name = none := by
  have haddr := lookupFunc_eq db h
  constructor
  · intro herr
    rw [herr] at haddr
    exact Option.map_eq_none_iff.mp haddr.symm
  · intro hnone
    rw [hnone, Option.map_none] at haddr
    simp only [lookupFunc, h] at haddr ⊢
    cases hfound : (db.functions.map functionInfo).find?
        fun f => f.name = name || contains f.name name with
    | none => rfl
    | some info => simp [hfound, LookupOutcome.address] at haddr

theorem handleDisasm_ne_missing (db : Idb) (a count : ℕ) (text : String) :
    handleDisasm (some db) a count ≠ .error (.functionNameNotFound text) := by
  simp only [handleDisasm, Option.elim_some, bind, Except.bind]
  split <;> simp

theorem handleResolveFunction_missing (db : Idb) (name : List Char) :
    handleResolveFunction (some db) name = .error (.functionNameNotFound (String.ofList name)) ↔
      firstMatch (namedFunctions db) name = none := by
  simp only [handleResolveFunction, Option.elim_some, bind, Except.bind]
  rcases find_functionNamed db name with ⟨func, s, hfind, hfirst, -⟩ | ⟨hfind, hfirst⟩
  · simp [hfind, hfirst]
  · simp [hfind, hfirst]

/- The disassembly of an address has an error of its own. -/
theorem handleDisasmByName_missing (db : Idb) (name : List Char) (count : ℕ) :
    handleDisasmByName (some db) name count =
        .error (.functionNameNotFound (String.ofList name)) ↔
      firstMatch (namedFunctions db) name = none := by
  rw [handleDisasmByName_eq]
  cases firstMatch (namedFunctions db) name with
  | none => simp [addressOf, Except.bind]
  | some s => exact iff_of_false (handleDisasm_ne_missing db s.address count _) (by simp)

theorem resolveAddressByName_ok (db : Idb) {name : List Char} {a : ℕ} :
    resolveAddressByName (some db) name = .ok a ↔
      (firstMatch (symbols db) name).map Symbol.address = some a := by
  rw [resolveAddressByName_eq, addressOf_eq_ok]

theorem handleResolveFunction_ok (db : Idb) {name : List Char} {a : ℕ} :
    (handleResolveFunction (some db) name).map FunctionInfo.address = .ok (hexAddr a) ↔
      (firstMatch (namedFunctions db) name).map Symbol.address = some a := by
  rw [handleResolveFunction_eq]
  cases firstMatch (namedFunctions db) name with
  | none => simp [addressOf, Except.map]
  | some s =>
    simp only [addressOf, Option.elim_some, Except.map, Except.ok.injEq, Option.map_some,
      Option.some.injEq]
    exact ⟨hexAddr_injective, fun h => by rw [h]⟩

/-- The exact name wins exactly if in none of the tables that are searched a symbol that only
contains it comes first. -/
theorem exact_name_wins_iff (db : Idb) (name : List Char) :
    ExactWins db name ↔
      ¬ StrayFirst (symbols db) name ∧ ¬ StrayFirst (namedFunctions db) name ∧
        ((∃ e, parseAddress name = .error e) → ¬ StrayFirst (listedFunctions db) name) := by
  constructor
  · intro hwins
    refine ⟨wins_iff.mp ?_, wins_iff.mp ?_, ?_⟩
    · intro h
      obtain ⟨a, hnamed, ha⟩ := hwins.address h
      exact ⟨a, hnamed, (resolveAddressByName_ok db).mp ha⟩
    · intro h
      obtain ⟨a, hnamed, ha⟩ := hwins.function h
      exact ⟨a, hnamed, (handleResolveFunction_ok db).mp ha⟩
    · rintro ⟨e, he⟩
      apply wins_iff.mp
      intro h
      obtain ⟨a, hnamed, ha⟩ := hwins.lookup ⟨e, he⟩ h
      have hresult := ha [name] [⟨name, lookupFunc db name⟩] rfl _
        (List.mem_singleton_self _) rfl
      rw [lookupFunc_eq db he] at hresult
      obtain ⟨s, hs, haddr⟩ := Option.map_eq_some_iff.mp hresult
      refine ⟨a, hnamed, ?_⟩
      rw [hs, Option.map_some, hexAddr_injective haddr]
  · rintro ⟨hsymbols, hfunctions, hlisted⟩
    refine ⟨?_, ?_, ?_, ?_, ?_, ?_, ?_, ?_⟩
    · intro h
      obtain ⟨a, hnamed, ha⟩ := wins_iff.mpr hsymbols h
      exact ⟨a, hnamed, (resolveAddressByName_ok db).mpr ha⟩
    · intro h
      obtain ⟨a, hnamed, ha⟩ := wins_iff.mpr hfunctions h
      exact ⟨a, hnamed, (handleResolveFunction_ok db).mpr ha⟩
    · intro h
      obtain ⟨a, hnamed, ha⟩ := wins_iff.mpr hfunctions h
      refine ⟨a, hnamed, fun count => ?_⟩
      rw [handleDisasmByName_eq, addressOf_eq_ok.mpr ha]
      rfl
    · rintro ⟨e, he⟩ h
      obtain ⟨a, hnamed, ha⟩ := wins_iff.mpr (hlisted ⟨e, he⟩) h
      refine ⟨a, hnamed, fun queries results hok r hr hquery => ?_⟩
      obtain ⟨s, hs, haddr⟩ := Option.map_eq_some_iff.mp ha
      rw [mem_lookup_results hok hr hquery, lookupFunc_eq db he, hs, Option.map_some, haddr]
    · rw [resolveAddressByName_eq, addressOf_eq_missing, firstMatch_eq_none]
    · rw [handleResolveFunction_missing, firstMatch_eq_none]
    · intro count
      rw [handleDisasmByName_missing, firstMatch_eq_none]
    · rintro ⟨e, he⟩ queries results hok r hr hquery
      rw [mem_lookup_results hok hr hquery, lookupFunc_missing he, firstMatch_eq_none]

/- `read_all` is listed before `read`. -/
def readDb : Idb where
  functions := [⟨some "read_all".toList, 0x1000, 16⟩, ⟨some "read".toList, 0x2000, 16⟩]
  names := [⟨"read_all".toList, 0x1000⟩, ⟨"read".toList, 0x2000⟩]
  functionAt := fun _ => none
  disasmLine := fun _ => some "ret".toList
  insnAt := fun _ => some 1
  nextHead := fun _ => none

theorem containing_name_wins :
    NamedAt (symbols readDb) "read".toList 0x2000 ∧
      resolveAddressByName (some readDb) "read".toList = .ok 0x1000 ∧
      (handleResolveFunction (some readDb) "read".toList).map FunctionInfo.address =
        .ok "0x1000" ∧
      handleDisasmByName (some readDb) "read".toList 1 = .ok "0x1000:\tret".toList ∧
      (handleLookupFuncs (some readDb) ["read".toList]).map
        (fun results => results.map fun r => r.outcome.address) = .ok [some "0x1000"] :=
  ⟨⟨⟨"read".toList, 0x2000⟩, by simp [symbols, namedFunctions, readDb], rfl, rfl⟩,
    by decide +kernel, by decide +kernel, by decide +kernel, by decide +kernel⟩

end IdaHeadless.Symbols
