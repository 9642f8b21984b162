import IdaHeadless.Radix
import IdaHeadless.Listing.Loop
import IdaHeadless.Structs.Lookup

/-!
# The listings (query.rs and the handlers of functions, globals, imports, strings, types, structs)

Seven listings with one loop. They differ in their items, in what they keep of them and in the
order that a query can ask for. Unicode's lower case and regular expressions are parameters.
-/

namespace IdaHeadless.Listing

open Paging Radix

/-! ### Name filters -/

/-- Regular expressions and lower case. -/
structure TextEngine where
  Regex : Type
  newRegex : List Char → Except String Regex
  isMatch : Regex → List Char → Bool
  toLowercase : List Char → List Char

inductive NameFilter (engine : TextEngine) where
  | any
  | substring (needle : List Char)
  | regex (pattern : engine.Regex)

def NameFilter.compile (engine : TextEngine) (filter regex : Option (List Char)) :
    Except ToolError (NameFilter engine) :=
  match filter, regex with
  | some _, some _ =>
    .error (.invalidParams "name at most one of 'filter' (substring) and 'regex'")
  | some filter, none => .ok (.substring (engine.toLowercase filter))
  | none, some pattern =>
    match engine.newRegex pattern with
    | .ok compiled => .ok (.regex compiled)
    | .error e =>
      .error (.invalidParams ("invalid regex '" ++ String.ofList pattern ++ "': " ++ e))
  | none, none => .ok .any

def NameFilter.matches {engine : TextEngine} (filter : NameFilter engine) (name : List Char) :
    Bool :=
  match filter with
  | .any => true
  | .substring needle => needle <:+: engine.toLowercase name
  | .regex pattern => engine.isMatch pattern name

/- `Option::is_none_or`. -/
def noneOr {α : Type} (bound : Option α) (p : α → Bool) : Bool := bound.elim true p

/- `trim_start_matches("0x")`. -/
def trimHexMarks : List Char → List Char
  | '0' :: 'x' :: rest => trimHexMarks rest
  | cs => cs

/-- A rendered address is read back, as `0x9` comes after `0x10` as text. -/
def addressKey (rendered : String) : ℕ :=
  (parseUnsigned 16 (2 ^ 64) (trimHexMarks rendered.toList)).getD 0

/-! ### The database -/

structure Function where
  startAddress : ℕ
  name : Option (List Char)
  len : ℕ

structure NameItem where
  address : ℕ
  name : List Char
  isPublic : Bool
  isWeak : Bool

structure Segment where
  isExtern : Bool
  isImport : Bool
  name : Option (List Char)

structure LocalType where
  ordinal : ℕ
  name : List Char
  decl : List Char
  kind : List Char

/-- What the listings read of a database. `strings` is what the string index holds after it was
rebuilt. -/
structure Idb where
  functions : List Function
  names : List NameItem
  strings : List (ℕ × List Char)
  segmentAt : ℕ → Option Segment
  functionAt : ℕ → Option Function
  udtOrdinalLimit : ℕ
  localTypeInfo : ℕ → Option LocalType
  udtInfo : ℕ → Option Structs.UdtInfo
  functions_fit : functions.length ≤ usizeMax
  names_fit : names.length ≤ usizeMax
  strings_fit : strings.length ≤ usizeMax
  ordinals_fit : udtOrdinalLimit < 2 ^ 32

/-! ### Functions -/

inductive FunctionSort where
  | address
  | name
  | size
  deriving DecidableEq

structure FunctionQuery where
  offset : ℕ
  limit : ℕ
  filter : Option (List Char)
  regex : Option (List Char)
  minSize : Option ℕ
  maxSize : Option ℕ
  sortBy : Option FunctionSort
  descending : Bool

structure FunctionInfo where
  address : String
  name : List Char
  size : ℕ
  deriving DecidableEq

def FunctionQuery.sizeMatches (query : FunctionQuery) (size : ℕ) : Bool :=
  noneOr query.minSize (size ≥ ·) && noneOr query.maxSize (size ≤ ·)

def FunctionSort.key : FunctionSort → SortKey FunctionInfo
  | .address => .by fun f => addressKey f.address
  | .name => .by FunctionInfo.name
  | .size => .by FunctionInfo.size

/- `sub_1000` stands in for a missing name. -/
def functionInfo (func : Function) : FunctionInfo :=
  ⟨hexAddr func.startAddress,
    func.name.getD (['s', 'u', 'b', '_'] ++ Nat.toDigits 16 func.startAddress), func.len⟩

def FunctionQuery.keeps (query : FunctionQuery) {engine : TextEngine} (filter : NameFilter engine)
    (func : Function) : Bool :=
  filter.matches (functionInfo func).name && query.sizeMatches func.len

def handleListFunctions (kit : NextRule) (engine : TextEngine) (idb : Option Idb)
    (query : FunctionQuery) : Except ToolError (ListPage FunctionInfo) := do
  let db ← idb.elim (.error .noDatabaseOpen) .ok
  let filter ← NameFilter.compile engine query.filter query.regex
  .ok (listPage kit (query.keeps filter) (fun _ => functionInfo)
    (query.sortBy.map FunctionSort.key) query.descending query.offset query.limit db.functions)

/-! ### Globals, imports and exports -/

inductive NameSort where
  | address
  | name
  deriving DecidableEq

structure NameQuery where
  offset : ℕ
  limit : ℕ
  filter : Option (List Char)
  regex : Option (List Char)
  module : Option (List Char)
  sortBy : Option NameSort
  descending : Bool

/-- The order of the entries of a symbol listing, by their two common fields. -/
def NameSort.key {α : Type} (addressOf : α → String) (nameOf : α → List Char) :
    NameSort → SortKey α
  | .address => .by fun item => addressKey (addressOf item)
  | .name => .by nameOf

def NameQuery.moduleMatches (query : NameQuery) (engine : TextEngine) (module : List Char) : Bool :=
  noneOr query.module fun want => engine.toLowercase want <:+: engine.toLowercase module

structure GlobalInfo where
  address : String
  name : List Char
  isPublic : Bool
  isWeak : Option Bool
  deriving DecidableEq

def globalInfo (item : NameItem) : GlobalInfo :=
  ⟨hexAddr item.address, item.name, item.isPublic, some item.isWeak⟩

/- Only names outside of functions. -/
def keepsGlobal (db : Idb) {engine : TextEngine} (filter : NameFilter engine) (item : NameItem) :
    Bool :=
  filter.matches item.name && (db.functionAt item.address).isNone

def handleListGlobals (kit : NextRule) (engine : TextEngine) (idb : Option Idb)
    (query : NameQuery) : Except ToolError (ListPage GlobalInfo) := do
  let db ← idb.elim (.error .noDatabaseOpen) .ok
  let filter ← NameFilter.compile engine query.filter query.regex
  .ok (listPage kit (keepsGlobal db filter) (fun _ => globalInfo)
    (query.sortBy.map (NameSort.key GlobalInfo.address GlobalInfo.name)) query.descending
    query.offset query.limit db.names)

structure ImportInfo where
  address : String
  name : List Char
  module : List Char
  ordinal : ℕ
  deriving DecidableEq

def moduleOf (db : Idb) (item : NameItem) : List Char :=
  ((db.segmentAt item.address).bind Segment.name).getD []

/- The ordinal counts the matches. -/
def importInfo (db : Idb) (ordinal : ℕ) (item : NameItem) : ImportInfo :=
  ⟨hexAddr item.address, item.name, moduleOf db item, ordinal⟩

/- Imports are names in external segments. -/
def NameQuery.keepsImport (query : NameQuery) (db : Idb) {engine : TextEngine}
    (filter : NameFilter engine) (item : NameItem) : Bool :=
  (db.segmentAt item.address).any (fun seg => seg.isExtern || seg.isImport) &&
    filter.matches item.name && query.moduleMatches engine (moduleOf db item)

def handleImports (kit : NextRule) (engine : TextEngine) (idb : Option Idb) (query : NameQuery) :
    Except ToolError (ListPage ImportInfo) := do
  let db ← idb.elim (.error .noDatabaseOpen) .ok
  let filter ← NameFilter.compile engine query.filter query.regex
  .ok (listPage kit (query.keepsImport db filter) (importInfo db)
    (query.sortBy.map (NameSort.key ImportInfo.address ImportInfo.name)) query.descending
    query.offset query.limit db.names)

structure ExportInfo where
  address : String
  name : List Char
  isPublic : Bool
  deriving DecidableEq

def exportInfo (item : NameItem) : ExportInfo := ⟨hexAddr item.address, item.name, item.isPublic⟩

def handleExports (kit : NextRule) (engine : TextEngine) (idb : Option Idb) (query : NameQuery) :
    Except ToolError (ListPage ExportInfo) := do
  let db ← idb.elim (.error .noDatabaseOpen) .ok
  let filter ← NameFilter.compile engine query.filter query.regex
  .ok (listPage kit (fun item : NameItem => filter.matches item.name) (fun _ => exportInfo)
    (query.sortBy.map (NameSort.key ExportInfo.address ExportInfo.name)) query.descending
    query.offset query.limit db.names)

/-! ### Strings -/

inductive StringSort where
  | address
  | length
  | content
  deriving DecidableEq

structure StringQuery where
  offset : ℕ
  limit : ℕ
  filter : Option (List Char)
  regex : Option (List Char)
  minLength : Option ℕ
  maxLength : Option ℕ
  sortBy : Option StringSort
  descending : Bool

structure StringInfo where
  address : String
  content : List Char
  length : ℕ
  deriving DecidableEq

/- `str::len` counts the bytes. -/
def byteLength (content : List Char) : ℕ := (content.map Char.utf8Size).sum

def StringQuery.lengthMatches (query : StringQuery) (length : ℕ) : Bool :=
  noneOr query.minLength (length ≥ ·) && noneOr query.maxLength (length ≤ ·)

def StringSort.key : StringSort → SortKey StringInfo
  | .address => .by fun s => addressKey s.address
  | .length => .by StringInfo.length
  | .content => .by StringInfo.content

def stringInfo (item : ℕ × List Char) : StringInfo :=
  ⟨hexAddr item.1, item.2, byteLength item.2⟩

def StringQuery.keeps (query : StringQuery) {engine : TextEngine} (filter : NameFilter engine)
    (item : ℕ × List Char) : Bool :=
  filter.matches item.2 && query.lengthMatches (byteLength item.2)

def shouldRebuildStringIndex (offset : ℕ) : Bool := offset = 0

/-- The answer, and the string index after it. -/
def handleStrings (kit : NextRule) (engine : TextEngine) (idb : Option Idb) (query : StringQuery)
    (index : List (ℕ × List Char)) :
    Except ToolError (ListPage StringInfo) × List (ℕ × List Char) :=
  match idb with
  | none => (.error .noDatabaseOpen, index)
  | some db =>
    match NameFilter.compile engine query.filter query.regex with
    | .error e => (.error e, index)
    | .ok filter =>
      let index := if shouldRebuildStringIndex query.offset then db.strings else index
      (.ok (listPage kit (query.keeps filter) (fun _ => stringInfo)
        (query.sortBy.map StringSort.key) query.descending query.offset query.limit index), index)

/-! ### Types and structures -/

inductive TypeKind where
  | struct | union | enum | function | pointer | array | typedef | other | udt
  deriving DecidableEq

def TypeKind.keeps (want : TypeKind) (kind : List Char) : Bool :=
  match want with
  | .struct => kind = "struct".toList
  | .union => kind = "union".toList
  | .enum => kind = "enum".toList
  | .function => kind = "function".toList
  | .pointer => kind = "pointer".toList
  | .array => kind = "array".toList
  | .typedef => kind = "typedef".toList
  | .other => kind = "other".toList
  | .udt => kind = "struct".toList || kind = "union".toList

inductive TypeSort where
  | ordinal
  | name
  deriving DecidableEq

structure TypeQuery where
  offset : ℕ
  limit : ℕ
  filter : Option (List Char)
  regex : Option (List Char)
  kind : Option TypeKind
  sortBy : Option TypeSort
  descending : Bool

def TypeQuery.kindMatches (query : TypeQuery) (kind : List Char) : Bool :=
  noneOr query.kind (·.keeps kind)

def TypeSort.key {α : Type} (ordinalOf : α → ℕ) (nameOf : α → List Char) : TypeSort → SortKey α
  | .ordinal => .by ordinalOf
  | .name => .by nameOf

/-- `1..ordinal_limit`. -/
def ordinals (db : Idb) : List ℕ := List.range' 1 (db.udtOrdinalLimit - 1)

def TypeQuery.keepsType (query : TypeQuery) {engine : TextEngine} (filter : NameFilter engine)
    (info : LocalType) : Bool :=
  filter.matches info.name && query.kindMatches info.kind

/- The row of a local type has the fields of `LocalType`. -/
def handleLocalTypes (kit : NextRule) (engine : TextEngine) (idb : Option Idb) (query : TypeQuery) :
    Except ToolError (ListPage LocalType) := do
  let db ← idb.elim (.error .noDatabaseOpen) .ok
  let filter ← NameFilter.compile engine query.filter query.regex
  .ok (listPage kit (query.keepsType filter) (fun _ info => info)
    (query.sortBy.map (TypeSort.key LocalType.ordinal LocalType.name)) query.descending
    query.offset query.limit ((ordinals db).filterMap db.localTypeInfo))

def TypeQuery.keepsStruct (query : TypeQuery) {engine : TextEngine} (filter : NameFilter engine)
    (info : Structs.UdtInfo) : Bool :=
  filter.matches info.name &&
    query.kindMatches (if info.isUnion then "union".toList else "struct".toList)

/- The row of a structure has the fields of `UdtInfo`. -/
def handleStructs (kit : NextRule) (engine : TextEngine) (idb : Option Idb) (query : TypeQuery) :
    Except ToolError (ListPage Structs.UdtInfo) := do
  let db ← idb.elim (.error .noDatabaseOpen) .ok
  let filter ← NameFilter.compile engine query.filter query.regex
  .ok (listPage kit (query.keepsStruct filter) (fun _ info => info)
    (query.sortBy.map (TypeSort.key Structs.UdtInfo.ordinal Structs.UdtInfo.name))
    query.descending query.offset query.limit ((ordinals db).filterMap db.udtInfo))

end IdaHeadless.Listing
