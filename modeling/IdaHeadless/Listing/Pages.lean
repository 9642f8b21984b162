import IdaHeadless.Address
import IdaHeadless.Listing.Handlers

/-!
# The listings in pages

A client that follows the offsets of a listing reads every row that the query keeps, once and in
the order of the query. The pages of a listing cannot disagree, as each of them is cut from the
same arranged list.
-/

namespace IdaHeadless.Listing

open Paging Radix Address

variable {kit : NextRule} {engine : TextEngine} {db : Idb} {filter : NameFilter engine}

/-! ### Sorting by address -/

/- A digit string has no mark in front. -/
theorem trimHexMarks_digits {cs : List Char} {n : ℕ} (h : digitsValue 16 0 cs = some n) :
    trimHexMarks cs = cs := by
  rw [trimHexMarks.eq_def]
  split
  · rename_i rest
    have hdigit := digit_of_mem h (show 'x' ∈ '0' :: 'x' :: rest by simp)
    exact absurd hdigit (by decide)
  · rfl

theorem addressKey_hexAddr {a : ℕ} (ha : a < 2 ^ 64) : addressKey (hexAddr a) = a := by
  have hdigits := digitsValue_hex a
  rw [addressKey, toList_hexAddr, trimHexMarks, trimHexMarks_digits hdigits,
    parseUnsigned_digits Nat.toDigits_ne_nil hdigits ha, Option.getD_some]

/-! ### One listing after the other -/

theorem ordinals_fit {α : Type} (db : Idb) (info : ℕ → Option α) :
    ((ordinals db).filterMap info).length ≤ usizeMax := by
  have hlimit := db.ordinals_fit
  have hlen : (ordinals db).length = db.udtOrdinalLimit - 1 := by rw [ordinals, List.length_range']
  have hle : ((ordinals db).filterMap info).length ≤ (ordinals db).length :=
    List.length_filterMap_le _ _
  rw [usizeMax]
  omega

theorem functions_in_pages {query : FunctionQuery} (hlimit : 1 ≤ query.limit)
    (hfilter : NameFilter.compile engine query.filter query.regex = .ok filter) :
    InPages (query.sortBy.map FunctionSort.key) query.descending query.limit
      (allRows (query.keeps filter) (fun _ => functionInfo) db.functions)
      (fun _ offset => (handleListFunctions kit engine (some db) { query with offset }, ()))
        () := by
  refine listPage_inPages kit _ _ hlimit db.functions_fit fun offset => ?_
  simp only [handleListFunctions, Option.elim_some, hfilter]
  rfl

section
variable {query : NameQuery} (hlimit : 1 ≤ query.limit)
  (hfilter : NameFilter.compile engine query.filter query.regex = .ok filter)
include hlimit hfilter

theorem globals_in_pages :
    InPages (query.sortBy.map (NameSort.key GlobalInfo.address GlobalInfo.name))
      query.descending query.limit
      (allRows (keepsGlobal db filter) (fun _ => globalInfo) db.names)
      (fun _ offset => (handleListGlobals kit engine (some db) { query with offset }, ())) () := by
  refine listPage_inPages kit _ _ hlimit db.names_fit fun offset => ?_
  simp only [handleListGlobals, Option.elim_some, hfilter]
  rfl

theorem imports_in_pages :
    InPages (query.sortBy.map (NameSort.key ImportInfo.address ImportInfo.name))
      query.descending query.limit
      (allRows (query.keepsImport db filter) (importInfo db) db.names)
      (fun _ offset => (handleImports kit engine (some db) { query with offset }, ())) () := by
  refine listPage_inPages kit _ _ hlimit db.names_fit fun offset => ?_
  simp only [handleImports, Option.elim_some, hfilter]
  rfl

theorem exports_in_pages :
    InPages (query.sortBy.map (NameSort.key ExportInfo.address ExportInfo.name))
      query.descending query.limit
      (allRows (fun item => filter.matches item.name) (fun _ => exportInfo) db.names)
      (fun _ offset => (handleExports kit engine (some db) { query with offset }, ())) () := by
  refine listPage_inPages kit _ _ hlimit db.names_fit fun offset => ?_
  simp only [handleExports, Option.elim_some, hfilter]
  rfl

end

/- The first page rebuilds the index, and the later ones find it so. -/
theorem strings_in_pages {query : StringQuery} (hlimit : 1 ≤ query.limit)
    (hfilter : NameFilter.compile engine query.filter query.regex = .ok filter)
    (index : List (ℕ × List Char)) :
    InPages (query.sortBy.map StringSort.key) query.descending query.limit
      (allRows (query.keeps filter) (fun _ => stringInfo) db.strings)
      (fun index offset => handleStrings kit engine (some db) { query with offset } index)
      index := by
  have hsettled : InPages (query.sortBy.map StringSort.key) query.descending query.limit
      (allRows (query.keeps filter) (fun _ => stringInfo) db.strings)
      (fun index offset => handleStrings kit engine (some db) { query with offset } index)
      db.strings := by
    refine listPage_inPages kit _ _ hlimit db.strings_fit fun offset => ?_
    simp only [handleStrings, hfilter, ite_self]
    rfl
  obtain ⟨l, pages, horder, hfollow, hrest⟩ := hsettled
  refine ⟨l, pages, horder, fun fuel hfuel => ?_, hrest⟩
  rw [← hfollow fuel hfuel]
  refine follow_settled ?_ fuel
  simp only [handleStrings, hfilter, shouldRebuildStringIndex, decide_true, if_true]

section
variable {query : TypeQuery} (hlimit : 1 ≤ query.limit)
  (hfilter : NameFilter.compile engine query.filter query.regex = .ok filter)
include hlimit hfilter

theorem local_types_in_pages :
    InPages (query.sortBy.map (TypeSort.key LocalType.ordinal LocalType.name))
      query.descending query.limit
      (allRows (query.keepsType filter) (fun _ info => info)
        ((ordinals db).filterMap db.localTypeInfo))
      (fun _ offset => (handleLocalTypes kit engine (some db) { query with offset }, ())) () := by
  refine listPage_inPages kit _ _ hlimit (ordinals_fit db _) fun offset => ?_
  simp only [handleLocalTypes, Option.elim_some, hfilter]
  rfl

theorem structs_in_pages :
    InPages (query.sortBy.map (TypeSort.key Structs.UdtInfo.ordinal Structs.UdtInfo.name))
      query.descending query.limit
      (allRows (query.keepsStruct filter) (fun _ info => info) ((ordinals db).filterMap db.udtInfo))
      (fun _ offset => (handleStructs kit engine (some db) { query with offset }, ())) () := by
  refine listPage_inPages kit _ _ hlimit (ordinals_fit db _) fun offset => ?_
  simp only [handleStructs, Option.elim_some, hfilter]
  rfl

end

/-! ### All listings -/

/-- Every listing comes in pages of its rows, in the order that was asked for. -/
theorem listings_in_pages (kit : NextRule) (engine : TextEngine) (db : Idb)
    (index : List (ℕ × List Char)) :
    (∀ a < 2 ^ 64, addressKey (hexAddr a) = a) ∧
    (∀ (query : FunctionQuery) (filter : NameFilter engine), 1 ≤ query.limit →
      NameFilter.compile engine query.filter query.regex = .ok filter →
        InPages (query.sortBy.map FunctionSort.key) query.descending query.limit
          (allRows (query.keeps filter) (fun _ => functionInfo) db.functions)
          (fun _ offset => (handleListFunctions kit engine (some db) { query with offset }, ()))
          ()) ∧
    (∀ (query : NameQuery) (filter : NameFilter engine), 1 ≤ query.limit →
      NameFilter.compile engine query.filter query.regex = .ok filter →
        InPages (query.sortBy.map (NameSort.key GlobalInfo.address GlobalInfo.name))
          query.descending query.limit
          (allRows (keepsGlobal db filter) (fun _ => globalInfo) db.names)
          (fun _ offset => (handleListGlobals kit engine (some db) { query with offset }, ())) () ∧
        InPages (query.sortBy.map (NameSort.key ImportInfo.address ImportInfo.name))
          query.descending query.limit
          (allRows (query.keepsImport db filter) (importInfo db) db.names)
          (fun _ offset => (handleImports kit engine (some db) { query with offset }, ())) () ∧
        InPages (query.sortBy.map (NameSort.key ExportInfo.address ExportInfo.name))
          query.descending query.limit
          (allRows (fun item => filter.matches item.name) (fun _ => exportInfo) db.names)
          (fun _ offset => (handleExports kit engine (some db) { query with offset }, ())) ()) ∧
    (∀ (query : StringQuery) (filter : NameFilter engine), 1 ≤ query.limit →
      NameFilter.compile engine query.filter query.regex = .ok filter →
        InPages (query.sortBy.map StringSort.key) query.descending query.limit
          (allRows (query.keeps filter) (fun _ => stringInfo) db.strings)
          (fun index offset => handleStrings kit engine (some db) { query with offset } index)
          index) ∧
    (∀ (query : TypeQuery) (filter : NameFilter engine), 1 ≤ query.limit →
      NameFilter.compile engine query.filter query.regex = .ok filter →
        InPages (query.sortBy.map (TypeSort.key LocalType.ordinal LocalType.name))
          query.descending query.limit
          (allRows (query.keepsType filter) (fun _ info => info)
            ((ordinals db).filterMap db.localTypeInfo))
          (fun _ offset => (handleLocalTypes kit engine (some db) { query with offset }, ())) () ∧
        InPages (query.sortBy.map (TypeSort.key Structs.UdtInfo.ordinal Structs.UdtInfo.name))
          query.descending query.limit
          (allRows (query.keepsStruct filter) (fun _ info => info)
            ((ordinals db).filterMap db.udtInfo))
          (fun _ offset => (handleStructs kit engine (some db) { query with offset }, ())) ()) := by
  refine ⟨fun a ha => addressKey_hexAddr ha, ?_, ?_, ?_, ?_⟩
  · intro query filter hlimit hfilter
    exact functions_in_pages hlimit hfilter
  · intro query filter hlimit hfilter
    exact ⟨globals_in_pages hlimit hfilter, imports_in_pages hlimit hfilter,
      exports_in_pages hlimit hfilter⟩
  · intro query filter hlimit hfilter
    exact strings_in_pages hlimit hfilter index
  · intro query filter hlimit hfilter
    exact ⟨local_types_in_pages hlimit hfilter, structs_in_pages hlimit hfilter⟩

/-- ASCII lower case, and no regular expressions. -/
def asciiEngine : TextEngine where
  Regex := Empty
  newRegex _ := .error "unsupported"
  isMatch pattern _ := pattern.elim
  toLowercase := List.map Char.toLower

/-- Two functions and two names. -/
def smallDb : Idb where
  functions := [⟨4096, some ['a'], 4⟩, ⟨8192, some ['b'], 12⟩]
  names := [⟨4096, ['a'], true, false⟩, ⟨8192, ['b'], false, false⟩]
  strings := [(12288, ['h', 'i'])]
  segmentAt _ := none
  functionAt _ := none
  udtOrdinalLimit := 1
  localTypeInfo _ := none
  udtInfo _ := none
  functions_fit := by decide
  names_fit := by decide
  strings_fit := by decide
  ordinals_fit := by decide

theorem exports_in_two_pages :
    ∃ pages, follow (fun _ offset => (handleExports .plain asciiEngine (some smallDb)
        ⟨offset, 1, none, none, none, none, false⟩, ())) (nextOf ListPage.nextOffset) 3 () 0 =
          some pages ∧
      pages.flatMap (rowsOf ListPage.items) =
        [⟨"0x1000", ['a'], true⟩, ⟨"0x2000", ['b'], false⟩] := by
  obtain ⟨-, -, hnames, -⟩ := listings_in_pages .plain asciiEngine smallDb []
  obtain ⟨l, pages, hl, hfollow, hrows, -⟩ :=
    (hnames ⟨0, 1, none, none, none, none, false⟩ .any (by decide) rfl).2.2
  have hl : l = [⟨"0x1000", ['a'], true⟩, ⟨"0x2000", ['b'], false⟩] := hl.trans (by decide)
  subst hl
  exact ⟨pages, hfollow 3 (by decide), hrows⟩

end IdaHeadless.Listing
