import IdaHeadless.FirstRows
import IdaHeadless.Listing.Pages
import Mathlib.Data.List.Perm.Subperm

/-!
# Resources read from a listing (supervisor/resource.rs)

`ida://import/<name>` and `ida://export/<name>` look a name up in a listing, `ida://types` and
`ida://structs` show one. All four call the tool of the listing once, for its first ten thousand
rows, and do not look at the offset of the next page.
-/

namespace IdaHeadless.Listing

open Paging FirstRows

/-! ### JSON -/

inductive Json where
  | null
  | bool (b : Bool)
  | num (n : ℕ)
  | str (s : List Char)
  | arr (items : List Json)
  | obj (fields : List (String × Json))

def Json.get (value : Json) (key : String) : Option Json :=
  match value with
  | .obj fields => (fields.find? (·.1 = key)).map Prod.snd
  | _ => none

def Json.asArray : Json → Option (List Json)
  | .arr items => some items
  | _ => none

def Json.asStr : Json → Option (List Char)
  | .str s => some s
  | _ => none

def Json.asU64 : Json → Option ℕ
  | .num n => some n
  | _ => none

def ImportInfo.toJson (row : ImportInfo) : Json :=
  .obj [("address", .str row.address.toList), ("name", .str row.name), ("module", .str row.module),
    ("ordinal", .num row.ordinal)]

def ExportInfo.toJson (row : ExportInfo) : Json :=
  .obj [("address", .str row.address.toList), ("name", .str row.name),
    ("is_public", .bool row.isPublic)]

def LocalType.toJson (row : LocalType) : Json :=
  .obj [("ordinal", .num row.ordinal), ("name", .str row.name), ("decl", .str row.decl),
    ("kind", .str row.kind)]

def structJson (row : Structs.UdtInfo) : Json :=
  .obj [("ordinal", .num row.ordinal), ("name", .str row.name), ("size", .num row.size),
    ("is_union", .bool row.isUnion), ("member_count", .num row.memberCount)]

/-- The answer of a listing tool: the page under its key, and the coverage of the analysis. -/
def pageJson {α : Type} (key : String) (toJson : α → Json) (coverage : Json) (page : ListPage α) :
    Json :=
  .obj ([(key, .arr (page.items.map toJson)), ("total", .num page.total)] ++
    (page.nextOffset.map fun next => ("next_offset", .num next)).toList ++
    [("analysis_coverage", coverage)])

/-! ### The tools -/

/-- `vibrev_kit::page::bounds`, which clamps the limit. -/
structure BoundsRule where
  bounds : Option ℤ → Option ℤ → ℕ → ℕ → Except String (ℕ × ℕ)
  bounds_eq : ∀ offset limit default most : ℕ, 1 ≤ most →
    bounds (some offset) (some limit) default most = .ok (offset, max 1 (min limit most))

structure ListRequest (κ : Type) where
  offset : Option ℤ
  limit : Option ℤ
  filter : Option (List Char)
  regex : Option (List Char)
  sortBy : Option κ
  descending : Option Bool

/-- The arguments of a call that only names a page. -/
def ListRequest.paged {κ : Type} (offset limit : ℤ) : ListRequest κ :=
  ⟨some offset, some limit, none, none, none, none⟩

def ListRequest.bounds {κ : Type} (req : ListRequest κ) (rule : BoundsRule) :
    Except ToolError (ℕ × ℕ) :=
  if req.descending.getD false = true ∧ req.sortBy.isNone = true then
    .error (.invalidParams "'descending' needs a 'sort_by' to reverse")
  else
    match rule.bounds req.offset req.limit 100 10000 with
    | .error e => .error (.invalidParams e)
    | .ok bounds => .ok bounds

/- `module` is a field of the imports' request alone. -/
def resolveNameQuery (rule : BoundsRule) (req : ListRequest NameSort)
    (module : Option (List Char)) :
    Except ToolError NameQuery := do
  let (offset, limit) ← req.bounds rule
  .ok ⟨offset, limit, req.filter, req.regex, module, req.sortBy, req.descending.getD false⟩

def resolveTypeQuery (rule : BoundsRule) (req : ListRequest TypeSort) (kind : Option TypeKind) :
    Except ToolError TypeQuery := do
  let (offset, limit) ← req.bounds rule
  .ok ⟨offset, limit, req.filter, req.regex, kind, req.sortBy, req.descending.getD false⟩

/-- The server that the tools run in: the kit's rules, the text engine, the database, and the
coverage block that every answer carries. -/
structure Server where
  next : NextRule
  bounds : BoundsRule
  engine : TextEngine
  idb : Option Idb
  coverage : Json

def importsTool (server : Server) (req : ListRequest NameSort) : Except ToolError Json := do
  let query ← resolveNameQuery server.bounds req none
  let page ← handleImports server.next server.engine server.idb query
  .ok (pageJson "imports" ImportInfo.toJson server.coverage page)

def exportsTool (server : Server) (req : ListRequest NameSort) : Except ToolError Json := do
  let query ← resolveNameQuery server.bounds req none
  let page ← handleExports server.next server.engine server.idb query
  .ok (pageJson "exports" ExportInfo.toJson server.coverage page)

def localTypesTool (server : Server) (req : ListRequest TypeSort) : Except ToolError Json := do
  let query ← resolveTypeQuery server.bounds req none
  let page ← handleLocalTypes server.next server.engine server.idb query
  .ok (pageJson "types" LocalType.toJson server.coverage page)

def structsTool (server : Server) (req : ListRequest TypeSort) : Except ToolError Json := do
  let query ← resolveTypeQuery server.bounds req none
  let page ← handleStructs server.next server.engine server.idb query
  .ok (pageJson "structs" structJson server.coverage page)

/-! ### The resources -/

def resourceLimit : ℕ := 10000

def paginatedArguments {κ : Type} : ListRequest κ := .paged 0 resourceLimit

def resourceListSources : List (String × String) :=
  [("entrypoints", "entrypoints"), ("exports", "exports"), ("imports", "imports"),
    ("local_types", "types"), ("segments", "segments"), ("structs", "structs"),
    ("xrefs_from", "xrefs")]

/- A bare array is taken as it is, an object by the key of its tool. -/
def toolList (value : Json) (tool : String) : List Json :=
  let key := ((resourceListSources.find? (·.1 = tool)).map Prod.snd).getD tool
  (value.asArray.or ((value.get key).bind Json.asArray)).getD []

def ordinalName (ordinal : ℕ) : List Char := ['o', 'r', 'd', '_'] ++ Nat.toDigits 10 ordinal

def importEntry (imports : Json) (name : List Char) : Json :=
  let found := (toolList imports "imports").find? fun item =>
    (item.get "name").bind Json.asStr = some name ||
      ((item.get "ordinal").bind Json.asU64).any fun ordinal => ordinalName ordinal = name
  match found with
  | none => .obj [("error", .str ("Import not found: ".toList ++ name))]
  | some item => .obj [("addr", (item.get "address").getD .null),
      ("name", (item.get "name").getD (.str name)), ("module", (item.get "module").getD .null),
      ("ordinal", (item.get "ordinal").getD .null)]

def exportEntry (exports : Json) (name : List Char) : Json :=
  let found := (toolList exports "exports").zipIdx.find? fun p =>
    (p.1.get "name").bind Json.asStr = some name
  match found with
  | none => .obj [("error", .str ("Export not found: ".toList ++ name))]
  | some (item, index) => .obj [("addr", (item.get "address").getD .null),
      ("name", (item.get "name").getD (.str name)), ("ordinal", .num (index + 1))]

/- Sizes are shown in hexadecimal. -/
def typesResource (value : Json) : Json :=
  .arr ((toolList value "local_types").map fun item =>
    .obj [("ordinal", (item.get "ordinal").getD .null), ("name", (item.get "name").getD .null),
      ("type", (item.get "decl").getD .null)])

def structsResource (value : Json) : Json :=
  .arr ((toolList value "structs").map fun item =>
    .obj [("name", (item.get "name").getD .null),
      ("size", ((item.get "size").bind Json.asU64).elim .null fun size =>
        .str (hexAddr size).toList),
      ("is_union", (item.get "is_union").getD (.bool false))])

inductive ResourceKind where
  | types
  | structs
  | importNamed (name : List Char)
  | exportNamed (name : List Char)

def readWorkerResource (server : Server) : ResourceKind → Except ToolError Json
  | .types => do .ok (typesResource (← localTypesTool server paginatedArguments))
  | .structs => do .ok (structsResource (← structsTool server paginatedArguments))
  | .importNamed name => do .ok (importEntry (← importsTool server paginatedArguments) name)
  | .exportNamed name => do .ok (exportEntry (← exportsTool server paginatedArguments) name)

/-! ### What a resource would show of the whole listing -/

/-- The query of a tool that is given a page and nothing else. -/
def plainNames : NameQuery := ⟨0, resourceLimit, none, none, none, none, false⟩

def plainTypes : TypeQuery := ⟨0, resourceLimit, none, none, none, none, false⟩

variable {server : Server} {db : Idb}

def importRows (engine : TextEngine) (db : Idb) : List ImportInfo :=
  allRows (plainNames.keepsImport db (.any : NameFilter engine)) (importInfo db) db.names

def exportRows (db : Idb) : List ExportInfo := db.names.map exportInfo

def typeRows (db : Idb) : List LocalType := (ordinals db).filterMap db.localTypeInfo

def structRows (db : Idb) : List Structs.UdtInfo := (ordinals db).filterMap db.udtInfo

/-- The name of an import, or its ordinal. -/
def ImportInfo.named (name : List Char) (row : ImportInfo) : Bool :=
  row.name = name || ordinalName row.ordinal = name

def importAnswer (name : List Char) : Option ImportInfo → Json
  | none => .obj [("error", .str ("Import not found: ".toList ++ name))]
  | some row => .obj [("addr", .str row.address.toList), ("name", .str row.name),
      ("module", .str row.module), ("ordinal", .num row.ordinal)]

def exportAnswer (name : List Char) : Option (ExportInfo × ℕ) → Json
  | none => .obj [("error", .str ("Export not found: ".toList ++ name))]
  | some (row, index) => .obj [("addr", .str row.address.toList), ("name", .str row.name),
      ("ordinal", .num (index + 1))]

def typeAnswer (row : LocalType) : Json :=
  .obj [("ordinal", .num row.ordinal), ("name", .str row.name), ("type", .str row.decl)]

def structAnswer (row : Structs.UdtInfo) : Json :=
  .obj [("name", .str row.name), ("size", .str (hexAddr row.size).toList),
    ("is_union", .bool row.isUnion)]

/-! ### What it shows -/

theorem toolList_pageJson {α : Type} (key tool : String) (toJson : α → Json) (coverage : Json)
    (page : ListPage α)
    (hkey : ((resourceListSources.find? (·.1 = tool)).map Prod.snd).getD tool = key) :
    toolList (pageJson key toJson coverage page) tool = page.items.map toJson := by
  simp [toolList, hkey, pageJson, Json.asArray, Json.get]

theorem importEntry_eq (coverage : Json) (page : ListPage ImportInfo) (name : List Char) :
    importEntry (pageJson "imports" ImportInfo.toJson coverage page) name =
      importAnswer name (page.items.find? (ImportInfo.named name)) := by
  have hnamed : ((fun item : Json => decide ((item.get "name").bind Json.asStr = some name) ||
      ((item.get "ordinal").bind Json.asU64).any fun ordinal =>
        decide (ordinalName ordinal = name)) ∘
        ImportInfo.toJson) = ImportInfo.named name := by
    funext row
    simp [ImportInfo.toJson, Json.get, Json.asStr, Json.asU64, ImportInfo.named]
  rw [importEntry, toolList_pageJson "imports" "imports" _ _ _ rfl, List.find?_map, hnamed]
  cases page.items.find? (ImportInfo.named name) with
  | none => rfl
  | some row => simp [ImportInfo.toJson, Json.get, importAnswer]

theorem exportEntry_eq (coverage : Json) (page : ListPage ExportInfo) (name : List Char) :
    exportEntry (pageJson "exports" ExportInfo.toJson coverage page) name =
      exportAnswer name (page.items.zipIdx.find? fun p => p.1.name = name) := by
  have hnamed : ((fun p : Json × ℕ => decide ((p.1.get "name").bind Json.asStr = some name)) ∘
      Prod.map ExportInfo.toJson id) = fun p => decide (p.1.name = name) := by
    funext p
    simp [ExportInfo.toJson, Json.get, Json.asStr]
  rw [exportEntry, toolList_pageJson "exports" "exports" _ _ _ rfl, List.zipIdx_map, List.find?_map,
    hnamed]
  cases page.items.zipIdx.find? fun p => decide (p.1.name = name) with
  | none => rfl
  | some p => simp [ExportInfo.toJson, Json.get, exportAnswer]

theorem typesResource_eq (coverage : Json) (page : ListPage LocalType) :
    typesResource (pageJson "types" LocalType.toJson coverage page) =
      .arr (page.items.map typeAnswer) := by
  rw [typesResource, toolList_pageJson "types" "local_types" _ _ _ rfl, List.map_map]
  refine congrArg Json.arr (List.map_congr_left fun row _ => ?_)
  simp [LocalType.toJson, Json.get, typeAnswer]

theorem structsResource_eq (coverage : Json) (page : ListPage Structs.UdtInfo) :
    structsResource (pageJson "structs" structJson coverage page) =
      .arr (page.items.map structAnswer) := by
  rw [structsResource, toolList_pageJson "structs" "structs" _ _ _ rfl, List.map_map]
  refine congrArg Json.arr (List.map_congr_left fun row _ => ?_)
  simp [structJson, Json.get, Json.asU64, structAnswer]

/- The resource asks for as much as the tools give at once. -/
theorem paginatedArguments_bounds {κ : Type} (rule : BoundsRule) :
    (paginatedArguments : ListRequest κ).bounds rule = .ok (0, resourceLimit) := by
  have hbounds : rule.bounds (some 0) (some resourceLimit) 100 10000 = .ok (0, resourceLimit) :=
    rule.bounds_eq 0 resourceLimit 100 10000 (by decide)
  simp only [paginatedArguments, ListRequest.paged, ListRequest.bounds, Option.getD_none,
    Bool.false_eq_true, false_and, if_false, hbounds]

theorem resolveNameQuery_paginated (rule : BoundsRule) :
    resolveNameQuery rule paginatedArguments none = .ok plainNames := by
  rw [resolveNameQuery, paginatedArguments_bounds]
  rfl

theorem resolveTypeQuery_paginated (rule : BoundsRule) :
    resolveTypeQuery rule paginatedArguments none = .ok plainTypes := by
  rw [resolveTypeQuery, paginatedArguments_bounds]
  rfl

/- Without an order the first page is the start of the rows. -/
theorem listPage_first {α β : Type} (kit : NextRule) {keeps : β → Bool} {row : ℕ → β → α}
    {items : List β} (limit : ℕ) (hfits : items.length ≤ usizeMax) :
    (listPage kit keeps row none false 0 limit items).items =
      (allRows keeps row items).take limit := by
  rw [listPage_eq kit none false 0 limit hfits]
  rfl

/- A listing that keeps every item. -/
theorem allRows_all {α β : Type} {keeps : β → Bool} (hkeeps : ∀ item, keeps item = true)
    (row : β → α) (items : List β) : allRows keeps (fun _ => row) items = items.map row := by
  rw [allRows, rowsFrom, List.filter_eq_self.mpr fun item _ => hkeeps item]
  conv_rhs => rw [← List.zipIdx_map_fst 0 items, List.map_map]
  rfl

theorem exportRows_eq (engine : TextEngine) (db : Idb) :
    allRows (fun item : NameItem => (.any : NameFilter engine).matches item.name)
      (fun _ => exportInfo) db.names = exportRows db :=
  allRows_all (fun _ => rfl) exportInfo db.names

theorem typeRows_eq (engine : TextEngine) (db : Idb) :
    allRows (plainTypes.keepsType (.any : NameFilter engine)) (fun _ info => info)
      ((ordinals db).filterMap db.localTypeInfo) = typeRows db := by
  have hrows := allRows_all (fun _ => rfl) id ((ordinals db).filterMap db.localTypeInfo)
  rw [List.map_id] at hrows
  exact hrows

theorem structRows_eq (engine : TextEngine) (db : Idb) :
    allRows (plainTypes.keepsStruct (.any : NameFilter engine)) (fun _ info => info)
      ((ordinals db).filterMap db.udtInfo) = structRows db := by
  have hrows := allRows_all (fun _ => rfl) id ((ordinals db).filterMap db.udtInfo)
  rw [List.map_id] at hrows
  exact hrows

/-! ### One read -/

section
variable (hdb : server.idb = some db)
include hdb

theorem read_import (name : List Char) :
    readWorkerResource server (.importNamed name) =
      .ok (importAnswer name
        (((importRows server.engine db).take resourceLimit).find? (ImportInfo.named name))) := by
  simp only [readWorkerResource, importsTool, resolveNameQuery_paginated, hdb]
  rw [importRows, ← listPage_first server.next resourceLimit db.names_fit,
    ← importEntry_eq server.coverage]
  rfl

theorem read_export (name : List Char) :
    readWorkerResource server (.exportNamed name) =
      .ok (exportAnswer name
        (((exportRows db).take resourceLimit).zipIdx.find? fun p => p.1.name = name)) := by
  simp only [readWorkerResource, exportsTool, resolveNameQuery_paginated, hdb]
  rw [← exportRows_eq server.engine, ← listPage_first server.next resourceLimit db.names_fit,
    ← exportEntry_eq server.coverage]
  rfl

theorem read_types :
    readWorkerResource server .types =
      .ok (.arr (((typeRows db).take resourceLimit).map typeAnswer)) := by
  simp only [readWorkerResource, localTypesTool, resolveTypeQuery_paginated, hdb]
  rw [← typeRows_eq server.engine,
    ← listPage_first server.next resourceLimit (ordinals_fit db db.localTypeInfo),
    ← typesResource_eq server.coverage]
  rfl

theorem read_structs :
    readWorkerResource server .structs =
      .ok (.arr (((structRows db).take resourceLimit).map structAnswer)) := by
  simp only [readWorkerResource, structsTool, resolveTypeQuery_paginated, hdb]
  rw [← structRows_eq server.engine,
    ← listPage_first server.next resourceLimit (ordinals_fit db db.udtInfo),
    ← structsResource_eq server.coverage]
  rfl

end

/-! ### Against the whole listing -/

/- A row of the first page has the index that it has in the listing. -/
theorem zipIdx_take {α : Type} (l : List α) (n k : ℕ) :
    (l.take n).zipIdx k = (l.zipIdx k).take n := by
  induction l generalizing n k with
  | nil => simp
  | cons a l ih =>
    cases n with
    | zero => rfl
    | succ n =>
      rw [List.take_succ_cons, List.zipIdx_cons, List.zipIdx_cons, List.take_succ_cons, ih]

theorem findIdx?_zipIdx {α : Type} (p : α → Bool) (l : List α) :
    l.zipIdx.findIdx? (fun q => p q.1) = l.findIdx? p := by
  conv_rhs => rw [← List.zipIdx_map_fst 0 l, List.findIdx?_map]
  rfl

/-- The resource is a list that has every one of the items. -/
def Shows (server : Server) (kind : ResourceKind) (items : List Json) : Prop :=
  ∃ shown, readWorkerResource server kind = .ok (.arr shown) ∧ items.Subperm shown

/- A list that is cut has every item only where nothing was cut off. -/
theorem shows_take_iff {α : Type} {kind : ResourceKind} {answer : α → Json} {rows : List α} {n : ℕ}
    (hread : readWorkerResource server kind = .ok (.arr ((rows.take n).map answer))) :
    Shows server kind (rows.map answer) ↔ rows.length ≤ n := by
  constructor
  · intro ⟨shown, hshown, hsub⟩
    rw [hread] at hshown
    cases hshown
    have hlen := hsub.length_le
    rw [List.length_map, List.length_map, List.length_take] at hlen
    omega
  · intro hle
    rw [List.take_of_length_le hle] at hread
    exact ⟨_, hread, List.Subperm.refl _⟩

theorem import_iff (hdb : server.idb = some db) (name : List Char) :
    readWorkerResource server (.importNamed name) =
        .ok (importAnswer name ((importRows server.engine db).find? (ImportInfo.named name))) ↔
      ∀ i, (importRows server.engine db).findIdx? (ImportInfo.named name) = some i →
        i < resourceLimit := by
  have hmiss : ∀ row, importAnswer name none ≠ importAnswer name (some row) := by
    simp [importAnswer]
  rw [read_import hdb, Except.ok.injEq, answer_take_iff hmiss]

theorem export_iff (hdb : server.idb = some db) (name : List Char) :
    readWorkerResource server (.exportNamed name) =
        .ok (exportAnswer name ((exportRows db).zipIdx.find? fun p => p.1.name = name)) ↔
      ∀ i, (exportRows db).findIdx? (fun row => row.name = name) = some i → i < resourceLimit := by
  have hmiss : ∀ p, exportAnswer name none ≠ exportAnswer name (some p) := by
    simp [exportAnswer]
  rw [read_export hdb, Except.ok.injEq, zipIdx_take, answer_take_iff hmiss,
    ← findIdx?_zipIdx fun row : ExportInfo => decide (row.name = name)]

/-- The lists that a client reads page by page, and when the resources see them whole. -/
theorem resources_iff (server : Server) (db : Idb) (hdb : server.idb = some db)
    (name : List Char) :
    (∀ limit, 1 ≤ limit →
      InPages none false limit (importRows server.engine db) (fun _ offset =>
        (handleImports server.next server.engine server.idb { plainNames with offset, limit }, ()))
        () ∧
      InPages none false limit (exportRows db) (fun _ offset =>
        (handleExports server.next server.engine server.idb { plainNames with offset, limit }, ()))
        () ∧
      InPages none false limit (typeRows db) (fun _ offset =>
        (handleLocalTypes server.next server.engine server.idb { plainTypes with offset, limit },
          ()))
        () ∧
      InPages none false limit (structRows db) (fun _ offset =>
        (handleStructs server.next server.engine server.idb { plainTypes with offset, limit }, ()))
        ()) ∧
    (readWorkerResource server (.importNamed name) =
        .ok (importAnswer name ((importRows server.engine db).find? (ImportInfo.named name))) ↔
      ∀ i, (importRows server.engine db).findIdx? (ImportInfo.named name) = some i →
        i < resourceLimit) ∧
    (readWorkerResource server (.exportNamed name) =
        .ok (exportAnswer name ((exportRows db).zipIdx.find? fun p => p.1.name = name)) ↔
      ∀ i, (exportRows db).findIdx? (fun row => row.name = name) = some i → i < resourceLimit) ∧
    (Shows server .types ((typeRows db).map typeAnswer) ↔ (typeRows db).length ≤ resourceLimit) ∧
    (Shows server .structs ((structRows db).map structAnswer) ↔
      (structRows db).length ≤ resourceLimit) := by
  refine ⟨fun limit hlimit => ?_, import_iff hdb name, export_iff hdb name,
    shows_take_iff (read_types hdb), shows_take_iff (read_structs hdb)⟩
  have hnames : NameFilter.compile server.engine { plainNames with limit }.filter
      { plainNames with limit }.regex = .ok .any := rfl
  have htypes : NameFilter.compile server.engine { plainTypes with limit }.filter
      { plainTypes with limit }.regex = .ok .any := rfl
  rw [hdb, ← exportRows_eq server.engine, ← typeRows_eq server.engine,
    ← structRows_eq server.engine]
  exact ⟨imports_in_pages hlimit hnames, exports_in_pages hlimit hnames,
    local_types_in_pages hlimit htypes, structs_in_pages hlimit htypes⟩

/-- A limit that is clamped into `1..=max`. -/
def BoundsRule.clamped : BoundsRule where
  bounds offset limit default most :=
    .ok ((offset.getD 0).toNat, max 1 (min (limit.getD default).toNat most))
  bounds_eq _ _ _ _ _ := rfl

def serverOf (db : Idb) : Server := ⟨.plain, .clamped, asciiEngine, some db, .null⟩

theorem export_b_shown :
    readWorkerResource (serverOf smallDb) (.exportNamed ['b']) =
      .ok (.obj [("addr", .str "0x2000".toList), ("name", .str ['b']), ("ordinal", .num 2)]) := by
  obtain ⟨-, -, hexport, -, -⟩ := resources_iff (serverOf smallDb) smallDb rfl ['b']
  refine (hexport.mpr fun i hi => ?_).trans rfl
  have hfirst : (exportRows smallDb).findIdx? (fun row => row.name = ['b']) = some 1 := by decide
  rw [hfirst] at hi
  cases hi
  decide

/-- Ten thousand names and then `b`. -/
def wideDb : Idb where
  functions := []
  names := (List.range resourceLimit).map
    (fun i => ⟨4096 + i, ['s', 'u', 'b', '_'] ++ Nat.toDigits 16 (4096 + i), true, false⟩) ++
      [⟨65536, ['b'], true, false⟩]
  strings := []
  segmentAt _ := none
  functionAt _ := none
  udtOrdinalLimit := 1
  localTypeInfo _ := none
  udtInfo _ := none
  functions_fit := by decide
  names_fit := by
    rw [List.length_append, List.length_map, List.length_range]
    decide
  strings_fit := by decide
  ordinals_fit := smallDb.ordinals_fit

theorem export_b_missed :
    readWorkerResource (serverOf wideDb) (.exportNamed ['b']) =
        .ok (.obj [("error", .str "Export not found: b".toList)]) ∧
      ⟨"0x10000", ['b'], true⟩ ∈ exportRows wideDb ∧
      InPages none false resourceLimit (exportRows wideDb) (fun _ offset =>
        (handleExports .plain asciiEngine (some wideDb) { plainNames with offset }, ())) () := by
  have hrows : (exportRows wideDb).take resourceLimit = (List.range resourceLimit).map fun i =>
      ⟨hexAddr (4096 + i), ['s', 'u', 'b', '_'] ++ Nat.toDigits 16 (4096 + i), true⟩ := by
    rw [exportRows, wideDb, List.map_append, List.map_map, List.take_left' (by simp)]
    rfl
  have hnone : ((exportRows wideDb).take resourceLimit).zipIdx.find?
      (fun p => p.1.name = ['b']) = none := by
    rw [hrows, List.find?_eq_none]
    intro p hp
    obtain ⟨i, -, hi⟩ := List.mem_map.mp (List.fst_mem_of_mem_zipIdx hp)
    simp [← hi]
  have hdb : (serverOf wideDb).idb = some wideDb := rfl
  refine ⟨?_, ?_, ?_⟩
  · rw [read_export hdb, hnone]
    rfl
  · refine List.mem_map.mpr ⟨⟨65536, ['b'], true, false⟩, ?_, by decide⟩
    exact List.mem_append_right _ List.mem_cons_self
  · have hlimit : 1 ≤ plainNames.limit := by decide
    have hfilter :
        NameFilter.compile asciiEngine plainNames.filter plainNames.regex = .ok .any := rfl
    rw [← exportRows_eq asciiEngine]
    exact exports_in_pages hlimit hfilter

end IdaHeadless.Listing
