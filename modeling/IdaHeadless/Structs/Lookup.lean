import IdaHeadless.TypedInt
import Mathlib.Data.List.Infix

/-!
# Structures by name (handlers/structs.rs)

A structure is asked for by its ordinal in the local type library or by its name. A name is
looked for in one pass over all ordinals: an exact match ends the pass, a name that contains
the query is remembered and counted, and is the answer only if it was the only one.

Lower case is Unicode's and stays a parameter.
-/

namespace IdaHeadless.Structs

open Text Radix TypedInt

/-! ### The database -/

structure UdtInfo where
  ordinal : ℕ
  name : List Char
  size : ℕ
  isUnion : Bool
  memberCount : ℕ
  deriving DecidableEq

structure UdtMember where
  name : List Char
  typeName : List Char
  offsetBits : ℕ
  sizeBits : ℕ
  isBitfield : Bool
  deriving DecidableEq

structure XRef where
  source : ℕ
  target : ℕ
  type : List Char
  isCode : Bool
  deriving DecidableEq

/-- What the handlers read of a database. A read of bytes that are all there returns them. -/
structure Idb where
  udtOrdinalLimit : ℕ
  udtInfo : ℕ → Option UdtInfo
  udtMember : ℕ → ℕ → Option UdtMember
  udtMemberTid : ℕ → ℕ → Option ℕ
  xrefsTo : ℕ → List XRef
  localTypeKind : ℕ → Option (List Char)
  appliedUdtName : ℕ → Option (List Char)
  toLowercase : List Char → List Char
  byteAt : ℕ → Option UInt8
  getBytes : ℕ → ℕ → List UInt8
  getBytes_window : ∀ a (window : List UInt8),
    (∀ i < window.length, byteAt (a + i) = window[i]?) → getBytes a window.length = window

/-! ### The lookup -/

def stripKeyword (name : List Char) : List Char :=
  (stripStart ['s', 't', 'r', 'u', 'c', 't', ' '] name <|>
    stripStart ['u', 'n', 'i', 'o', 'n', ' '] name).getD name

def exactName (name query : List Char) : Bool :=
  name = query || stripKeyword name = query || stripKeyword name = stripKeyword query

def fuzzyName (db : Idb) (name query : List Char) : Bool :=
  db.toLowercase query <:+: db.toLowercase name

/-- The pass over the ordinals, with the last fuzzy match and their number. -/
def scanOrdinals (db : Idb) (query : List Char) : List ℕ → Option UdtInfo → ℕ → Option UdtInfo
  | [], fuzzyMatch, fuzzyCount => if fuzzyCount = 1 then fuzzyMatch else none
  | ordinal :: rest, fuzzyMatch, fuzzyCount =>
    match db.udtInfo ordinal with
    | none => scanOrdinals db query rest fuzzyMatch fuzzyCount
    | some info =>
      if exactName info.name query then some info
      else if fuzzyName db info.name query then
        scanOrdinals db query rest (some info) (fuzzyCount + 1)
      else scanOrdinals db query rest fuzzyMatch fuzzyCount

/- `1..limit`. -/
def ordinals (db : Idb) : List ℕ := List.range' 1 (db.udtOrdinalLimit - 1)

def findStructByName (db : Idb) (name : List Char) : Option UdtInfo :=
  scanOrdinals db (trim name) (ordinals db) none 0

def explainMissingUdt (db : Idb) (ordinal : ℕ) : ToolError :=
  match db.localTypeKind ordinal with
  | some kind => .invalidParams ("local type ordinal " ++ toString ordinal ++ " is a " ++
      String.ofList kind ++
      ", not a struct or union; only structs and unions have members to read")
  | none => .invalidParams ("no local type has ordinal " ++ toString ordinal ++
      "; the library holds ordinals 1..=" ++ toString (db.udtOrdinalLimit - 1) ++
      ". List them with local_types.")

def resolveUdt (db : Idb) (ordinal : Option ℕ) (name : Option (List Char)) (tool : String) :
    Except ToolError UdtInfo :=
  match ordinal, name with
  | some _, some _ => .error (.invalidParams (tool ++
      " takes ordinal or name, not both: they can disagree, and there is no " ++
      "right answer when they do. Pass name alone unless you read the ordinal out of " ++
      "local_types or structs in this same session."))
  | some ord, none => (db.udtInfo ord).elim (.error (explainMissingUdt db ord)) .ok
  | none, some name => (findStructByName db name).elim
      (.error (.invalidParams ("unknown struct name: " ++ String.ofList name))) .ok
  | none, none => .error (.invalidParams (tool ++ " requires ordinal or name"))

/-! ### The handlers -/

structure StructMemberInfo where
  name : List Char
  typeName : List Char
  offsetBits : ℕ
  sizeBits : ℕ
  offset : ℕ
  size : ℕ
  isBitfield : Bool

structure StructInfo where
  ordinal : ℕ
  name : List Char
  size : ℕ
  isUnion : Bool
  memberCount : ℕ
  members : List StructMemberInfo

/-- The members that can be loaded, in order. -/
def udtMembers (db : Idb) (info : UdtInfo) : List UdtMember :=
  (List.range info.memberCount).filterMap (db.udtMember info.ordinal)

def byteOffset (member : UdtMember) : ℕ := member.offsetBits / 8

/- `div_ceil(8)`. -/
def byteSize (member : UdtMember) : ℕ := (member.sizeBits + 7) / 8

def memberInfo (member : UdtMember) : StructMemberInfo where
  name := member.name
  typeName := member.typeName
  offsetBits := member.offsetBits
  sizeBits := member.sizeBits
  offset := byteOffset member
  size := byteSize member
  isBitfield := member.isBitfield

def handleStructInfo (idb : Option Idb) (ordinal : Option ℕ) (name : Option (List Char)) :
    Except ToolError StructInfo := do
  let db ← idb.elim (.error .noDatabaseOpen) .ok
  let info ← resolveUdt db ordinal name "struct_info"
  .ok {
    ordinal := info.ordinal
    name := info.name
    size := info.size
    isUnion := info.isUnion
    memberCount := info.memberCount
    members := (udtMembers db info).map memberInfo }

structure StructMemberValue extends StructMemberInfo where
  bytes : List Char

structure StructReadResult where
  address : String
  ordinal : ℕ
  name : List Char
  size : ℕ
  members : List StructMemberValue

/- `usize::try_from(size).unwrap_or(0).min(0x10000)`, with a `usize` of 64 bits. -/
def readLen (size : ℕ) : ℕ := min (if size < 2 ^ 64 then size else 0) 0x10000

def memberValue (db : Idb) (addr : ℕ) (member : UdtMember) : StructMemberValue :=
  { memberInfo member with
    bytes :=
      if readLen (byteSize member) = 0 then []
      else hexEncode (db.getBytes (min (addr + byteOffset member) (2 ^ 64 - 1))
        (readLen (byteSize member))) }

/-- The structure that `read_struct` reads: without ordinal and name, the one applied at the
address. -/
def readTarget (db : Idb) (addr : ℕ) (ordinal : Option ℕ) (name : Option (List Char)) :
    Except ToolError UdtInfo :=
  let detectedName :=
    if ordinal.isNone && name.isNone then db.appliedUdtName addr else none
  let requestedName := name <|> detectedName
  if ordinal.isNone && requestedName.isNone then
    .error (.invalidParams "no struct specified and no applied UDT type was found")
  else resolveUdt db ordinal requestedName "read_struct"

def handleReadStruct (idb : Option Idb) (addr : ℕ) (ordinal : Option ℕ)
    (name : Option (List Char)) : Except ToolError StructReadResult := do
  let db ← idb.elim (.error .noDatabaseOpen) .ok
  let info ← readTarget db addr ordinal name
  .ok {
    address := hexAddr addr
    ordinal := info.ordinal
    name := info.name
    size := info.size
    members := (udtMembers db info).map (memberValue db addr) }

structure XRefInfo where
  source : String
  target : String
  type : List Char
  isCode : Bool

def xrefInfo (xref : XRef) : XRefInfo :=
  ⟨hexAddr xref.source, hexAddr xref.target, xref.type, xref.isCode⟩

structure XrefsToFieldResult where
  structOrdinal : ℕ
  structName : List Char
  memberIndex : ℕ
  memberName : List Char
  memberType : List Char
  memberOffsetBits : ℕ
  memberSizeBits : ℕ
  tid : String
  xrefs : List XRefInfo
  truncated : Bool

def memberIdx (db : Idb) (info : UdtInfo) (memberIndex : Option ℕ)
    (memberName : Option (List Char)) : Except ToolError ℕ :=
  match memberIndex, memberName with
  | some idx, _ => .ok idx
  | none, some name =>
    ((List.range info.memberCount).find? fun idx =>
      (db.udtMember info.ordinal idx).any fun member => member.name = name).elim
      (.error (.invalidParams ("unknown struct member name: " ++ String.ofList name ++ " in " ++
        String.ofList info.name))) .ok
  | none, none => .error (.invalidParams "xrefs_to_field requires member index or name")

def handleXrefsToField (idb : Option Idb) (ordinal : Option ℕ) (name : Option (List Char))
    (memberIndex : Option ℕ) (memberName : Option (List Char)) (limit : ℕ) :
    Except ToolError XrefsToFieldResult := do
  let db ← idb.elim (.error .noDatabaseOpen) .ok
  let info ← resolveUdt db ordinal name "xrefs_to_field"
  let idx ← memberIdx db info memberIndex memberName
  if info.memberCount ≤ idx then
    .error (.invalidParams ("member index out of range: " ++ toString idx ++ " (member_count=" ++
      toString info.memberCount ++ ")"))
  else
    let member ← (db.udtMember info.ordinal idx).elim
      (.error (.invalidParams "failed to load struct member")) .ok
    let tid ← (db.udtMemberTid info.ordinal idx).elim
      (.error (.invalidParams "struct member has no TID")) .ok
    .ok {
      structOrdinal := info.ordinal
      structName := info.name
      memberIndex := idx
      memberName := member.name
      memberType := member.typeName
      memberOffsetBits := member.offsetBits
      memberSizeBits := member.sizeBits
      tid := hexAddr tid
      xrefs := ((db.xrefsTo tid).take limit).map xrefInfo
      truncated := limit < (db.xrefsTo tid).length }

/-! ### One pass -/

variable {db : Idb} {query name : List Char} {info : UdtInfo} {tool : String}

/-- The structures and unions of the library, in the order of their ordinals. -/
def udts (db : Idb) : List UdtInfo := (ordinals db).filterMap db.udtInfo

def fuzzyMatches (db : Idb) (query : List Char) : List UdtInfo :=
  (udts db).filter fun info => fuzzyName db info.name query

/-- The only element of a list. -/
def only (infos : List UdtInfo) : Option UdtInfo :=
  if infos.length = 1 then infos.getLast? else none

theorem only_eq_some {infos : List UdtInfo} : only infos = some info ↔ infos = [info] := by
  rw [only]
  constructor
  · intro h
    split at h
    · rename_i hlen
      obtain ⟨u, rfl⟩ := List.length_eq_one_iff.mp hlen
      have hu : u = info := Option.some.inj h
      rw [hu]
    · cases h
  · rintro rfl
    rfl

/- Without an exact match the pass goes through to its end. What it carries along is the last
element and the length of the fuzzy matches it has seen. -/
theorem scanOrdinals_fuzzy (ords : List ℕ)
    (h : ∀ info ∈ ords.filterMap db.udtInfo, exactName info.name query = false)
    (seen : List UdtInfo) :
    scanOrdinals db query ords seen.getLast? seen.length =
      only (seen ++ (ords.filterMap db.udtInfo).filter fun u => fuzzyName db u.name query) := by
  induction ords generalizing seen with
  | nil => simp [scanOrdinals, only]
  | cons ordinal ords ih =>
    cases hinfo : db.udtInfo ordinal with
    | none =>
      rw [List.filterMap_cons_none hinfo] at h ⊢
      simp only [scanOrdinals, hinfo]
      exact ih h seen
    | some info =>
      rw [List.filterMap_cons_some hinfo] at h ⊢
      have hexact : exactName info.name query = false := h info List.mem_cons_self
      have hrest : ∀ u ∈ ords.filterMap db.udtInfo, exactName u.name query = false :=
        fun u hu => h u (List.mem_cons_of_mem info hu)
      simp only [scanOrdinals, hinfo, hexact, Bool.false_eq_true, if_false]
      by_cases hfuzzy : fuzzyName db info.name query = true
      · have hnext := ih hrest (seen ++ [info])
        rw [List.getLast?_concat, List.length_append, List.length_singleton, List.append_assoc,
          List.singleton_append] at hnext
        rw [if_pos hfuzzy, hnext, List.filter_cons, if_pos hfuzzy]
      · rw [if_neg hfuzzy, ih hrest seen, List.filter_cons, if_neg hfuzzy]

/- An exact match is the answer, whatever has been seen before it. -/
theorem scanOrdinals_exact (ords : List ℕ)
    (h : ∃ info ∈ ords.filterMap db.udtInfo, exactName info.name query = true)
    (fuzzyMatch : Option UdtInfo) (fuzzyCount : ℕ) :
    ∃ info ∈ ords.filterMap db.udtInfo, exactName info.name query = true ∧
      scanOrdinals db query ords fuzzyMatch fuzzyCount = some info := by
  induction ords generalizing fuzzyMatch fuzzyCount with
  | nil => simp at h
  | cons ordinal ords ih =>
    cases hinfo : db.udtInfo ordinal with
    | none =>
      rw [List.filterMap_cons_none hinfo] at h ⊢
      simp only [scanOrdinals, hinfo]
      exact ih h fuzzyMatch fuzzyCount
    | some info =>
      rw [List.filterMap_cons_some hinfo] at h ⊢
      by_cases hexact : exactName info.name query = true
      · exact ⟨info, List.mem_cons_self, hexact,
          by simp only [scanOrdinals, hinfo, hexact, if_true]⟩
      · have hlater : ∃ u ∈ ords.filterMap db.udtInfo, exactName u.name query = true := by
          obtain ⟨u, hu, hname⟩ := h
          rcases List.mem_cons.mp hu with rfl | hu
          · exact absurd hname hexact
          · exact ⟨u, hu, hname⟩
        have hskip : ∃ fuzzyMatch' fuzzyCount',
            scanOrdinals db query (ordinal :: ords) fuzzyMatch fuzzyCount =
              scanOrdinals db query ords fuzzyMatch' fuzzyCount' := by
          simp only [scanOrdinals, hinfo, if_neg hexact]
          split
          · exact ⟨_, _, rfl⟩
          · exact ⟨_, _, rfl⟩
        obtain ⟨fuzzyMatch', fuzzyCount', hskip⟩ := hskip
        obtain ⟨u, hu, hname, hscan⟩ := ih hlater fuzzyMatch' fuzzyCount'
        exact ⟨u, List.mem_cons_of_mem info hu, hname, hskip.trans hscan⟩

/-! ### What the lookup returns -/

/-- The name is the query, without its own keyword or with both without theirs. -/
def SameName (name query : List Char) : Prop :=
  name = query ∨ stripKeyword name = query ∨ stripKeyword name = stripKeyword query

theorem exactName_iff {query : List Char} : exactName name query = true ↔ SameName name query := by
  simp [exactName, SameName, or_assoc]

theorem findStructByName_exact (h : ∃ info ∈ udts db, SameName info.name (trim name)) :
    ∃ info ∈ udts db, SameName info.name (trim name) ∧ findStructByName db name = some info := by
  simp only [← exactName_iff] at h ⊢
  exact scanOrdinals_exact (ordinals db) h none 0

theorem findStructByName_fuzzy (h : ¬ ∃ info ∈ udts db, SameName info.name (trim name)) :
    findStructByName db name = only (fuzzyMatches db (trim name)) := by
  have hnot : ∀ info ∈ udts db, exactName info.name (trim name) = false := by
    intro info hinfo
    rw [← Bool.not_eq_true, exactName_iff]
    exact fun hsame => h ⟨info, hinfo, hsame⟩
  have hscan := scanOrdinals_fuzzy (ordinals db) hnot []
  rw [List.nil_append] at hscan
  exact hscan

/-- Two candidates compete: several names contain the query and none is exactly it. -/
def Ambiguous (db : Idb) (name : List Char) : Prop :=
  (¬ ∃ info ∈ udts db, SameName info.name (trim name)) ∧
    2 ≤ (fuzzyMatches db (trim name)).length

theorem resolveUdt_ambiguous (h : Ambiguous db name) :
    resolveUdt db none (some name) tool =
      .error (.invalidParams ("unknown struct name: " ++ String.ofList name)) := by
  have hnone : findStructByName db name = none := by
    rw [findStructByName_fuzzy h.1, only, if_neg]
    have hlen := h.2
    omega
  rw [resolveUdt, hnone]
  rfl

theorem readTarget_ambiguous (h : Ambiguous db name) {addr : ℕ} {given : Option (List Char)}
    (hname : given = some name ∨ (given = none ∧ db.appliedUdtName addr = some name)) :
    ∃ e, readTarget db addr none given = .error e := by
  have hread : readTarget db addr none given = resolveUdt db none (some name) "read_struct" := by
    rcases hname with rfl | ⟨rfl, happlied⟩
    · simp [readTarget]
    · simp [readTarget, happlied]
  exact ⟨_, hread.trans (resolveUdt_ambiguous h)⟩

/-- An exact name finds its structure, any other text finds the only one that contains it, and no
tool answers an ambiguous name. -/
theorem struct_lookup (db : Idb) (name : List Char) :
    ((∃ info ∈ udts db, SameName info.name (trim name)) →
      ∃ info ∈ udts db, SameName info.name (trim name) ∧ findStructByName db name = some info) ∧
    ((¬ ∃ info ∈ udts db, SameName info.name (trim name)) →
      ∀ info, findStructByName db name = some info ↔ fuzzyMatches db (trim name) = [info]) ∧
    (Ambiguous db name →
      (∃ e, handleStructInfo (some db) none (some name) = .error e) ∧
      (∀ addr given, given = some name ∨ (given = none ∧ db.appliedUdtName addr = some name) →
        ∃ e, handleReadStruct (some db) addr none given = .error e) ∧
      ∀ memberIndex memberName limit,
        ∃ e, handleXrefsToField (some db) none (some name) memberIndex memberName limit =
          .error e) := by
  refine ⟨findStructByName_exact, ?_, ?_⟩
  · intro h info
    rw [findStructByName_fuzzy h, only_eq_some]
  · intro h
    refine ⟨?_, ?_, ?_⟩
    · simp only [handleStructInfo, Option.elim_some, bind, Except.bind, resolveUdt_ambiguous h]
      exact ⟨_, rfl⟩
    · intro addr given hname
      obtain ⟨e, he⟩ := readTarget_ambiguous h hname
      simp only [handleReadStruct, Option.elim_some, bind, Except.bind, he]
      exact ⟨_, rfl⟩
    · intro memberIndex memberName limit
      simp only [handleXrefsToField, Option.elim_some, bind, Except.bind, resolveUdt_ambiguous h]
      exact ⟨_, rfl⟩

/-- A library with the given structures and no bytes. -/
def libraryOf (infos : List UdtInfo) (members : ℕ → ℕ → Option UdtMember) : Idb where
  udtOrdinalLimit := infos.length + 1
  udtInfo := fun ordinal => if ordinal = 0 then none else infos[ordinal - 1]?
  udtMember := members
  udtMemberTid := fun _ _ => none
  xrefsTo := fun _ => []
  localTypeKind := fun _ => none
  appliedUdtName := fun _ => none
  toLowercase := fun cs => cs.map Char.toLower
  byteAt := fun _ => none
  getBytes := fun _ _ => []
  getBytes_window := by
    intro a window h
    cases window with
    | nil => rfl
    | cons b window => cases h 0 (by simp)

def keywordLibrary : Idb := libraryOf [⟨1, "struct foo".toList, 4, false, 0⟩] fun _ _ => none

/- The query loses its keyword only together with the name. -/
theorem keyword_of_query_alone :
    (∃ info ∈ udts keywordLibrary, info.name = stripKeyword "struct struct foo".toList) ∧
      findStructByName keywordLibrary "struct struct foo".toList = none := by
  have hudts : udts keywordLibrary = [⟨1, "struct foo".toList, 4, false, 0⟩] := by decide +kernel
  rw [hudts]
  exact ⟨⟨_, List.mem_singleton_self _, by decide +kernel⟩, by decide +kernel⟩

end IdaHeadless.Structs
