import IdaHeadless.InterleavedPaging
import IdaHeadless.Listing.Handlers

/-!
# Scans of the string index (handlers/strings.rs, handlers/warmup.rs)

Four tools page through the index of the strings. A scan that starts at the beginning rebuilds it
first, and so does the warmup; the pages that follow are counted on it as it is. What analysis does
to the database in between is found by the next rebuild.
-/

namespace IdaHeadless.Listing

open Paging

/-! ### Searches -/

/-- Regular expressions that may fold the case. -/
structure SearchEngine extends TextEngine where
  buildRegex : List Char → Bool → Except String Regex

structure StringSearch where
  query : List Char
  exact : Bool
  caseInsensitive : Bool
  regex : Bool
  offset : ℕ
  limit : ℕ

/-- An empty query matches every string. -/
def StringSearch.scan (limit : ℕ) : StringSearch := ⟨[], false, true, false, 0, limit⟩

inductive StringMatcher (engine : SearchEngine) where
  | exact (query : List Char)
  | substring (query : List Char)
  | regex (pattern : engine.Regex)

def StringSearch.fold (engine : SearchEngine) (search : StringSearch) (text : List Char) :
    List Char :=
  if search.caseInsensitive then engine.toLowercase text else text

def StringSearch.matcher (engine : SearchEngine) (search : StringSearch) :
    Except ToolError (StringMatcher engine) :=
  if search.regex then
    if search.exact then
      .error (.invalidParams
        "'exact' and 'regex' are mutually exclusive; anchor the regex instead")
    else
      match engine.buildRegex search.query search.caseInsensitive with
      | .ok pattern => .ok (.regex pattern)
      | .error e => .error (.invalidParams
          ("invalid regex '" ++ String.ofList search.query ++ "': " ++ e))
  else if search.exact then .ok (.exact (search.fold engine search.query))
  else .ok (.substring (search.fold engine search.query))

def StringMatcher.matches {engine : SearchEngine} (matcher : StringMatcher engine)
    (content folded : List Char) : Bool :=
  match matcher with
  | .exact query => folded = query
  | .substring query => query <:+: folded
  | .regex pattern => engine.isMatch pattern content

/-! ### The handlers -/

/-- The database, with the addresses of the references to a string. -/
structure StringIdb extends Idb where
  refsTo : ℕ → List ℕ

structure StringRow where
  info : StringInfo
  xrefs : List String
  deriving DecidableEq

/- The loop ends with the reference that fills the list. -/
def collectRefs (most : ℕ) : List ℕ → List String → List String
  | [], xrefs => xrefs
  | source :: rest, xrefs =>
    if (xrefs ++ [hexAddr source]).length ≥ most then xrefs ++ [hexAddr source]
    else collectRefs most rest (xrefs ++ [hexAddr source])

/- Three of the handlers differ in what they look for and in the rows. -/
def scanStrings (kit : NextRule) (idb : Option StringIdb)
    (compiled : Except ToolError (ℕ × List Char → Bool))
    (row : StringIdb → ℕ × List Char → StringRow) (offset limit : ℕ)
    (index : List (ℕ × List Char)) :
    Except ToolError (ListPage StringRow) × List (ℕ × List Char) :=
  match idb with
  | none => (.error .noDatabaseOpen, index)
  | some db =>
    match compiled with
    | .error e => (.error e, index)
    | .ok keeps =>
      let index := if shouldRebuildStringIndex offset then db.strings else index
      (.ok (listPage kit keeps (fun _ => row db) none false offset limit index), index)

def StringQuery.compile (engine : TextEngine) (query : StringQuery) :
    Except ToolError (ℕ × List Char → Bool) :=
  (NameFilter.compile engine query.filter query.regex).map fun filter => query.keeps filter

def StringSearch.compile (engine : SearchEngine) (search : StringSearch) :
    Except ToolError (ℕ × List Char → Bool) :=
  (search.matcher engine).map fun matcher item =>
    matcher.matches item.2 (search.fold engine item.2)

def handleAnalyzeStrings (kit : NextRule) (engine : TextEngine) (idb : Option StringIdb)
    (query : StringQuery) (index : List (ℕ × List Char)) :
    Except ToolError (ListPage StringRow) × List (ℕ × List Char) :=
  scanStrings kit idb (query.compile engine)
    (fun db item => ⟨stringInfo item, collectRefs 64 (db.refsTo item.1) []⟩)
    query.offset query.limit index

def handleFindString (kit : NextRule) (engine : SearchEngine) (idb : Option StringIdb)
    (search : StringSearch) (index : List (ℕ × List Char)) :
    Except ToolError (ListPage StringRow) × List (ℕ × List Char) :=
  scanStrings kit idb (search.compile engine) (fun _ item => ⟨stringInfo item, []⟩)
    search.offset search.limit index

def handleXrefsToString (kit : NextRule) (engine : SearchEngine) (idb : Option StringIdb)
    (search : StringSearch) (maxXrefs : ℕ) (index : List (ℕ × List Char)) :
    Except ToolError (ListPage StringRow) × List (ℕ × List Char) :=
  scanStrings kit idb (search.compile engine)
    (fun db item =>
      ⟨stringInfo item, collectRefs (max 1 (min maxXrefs 1024)) (db.refsTo item.1) []⟩)
    search.offset search.limit index

def rebuildStringIndex (idb : Option StringIdb) (index : List (ℕ × List Char)) :
    List (ℕ × List Char) :=
  idb.elim index fun db => db.strings

/- `init_hexrays` does not touch the index. -/
def handleWarmup (idb : Option StringIdb) (buildCaches : Bool) (index : List (ℕ × List Char)) :
    List (ℕ × List Char) :=
  if buildCaches then rebuildStringIndex idb index else index

/-! ### The tools -/

inductive ScanRequest where
  | strings (query : StringQuery)
  | analyzeStrings (query : StringQuery)
  | findString (search : StringSearch)
  | xrefsToString (search : StringSearch) (maxXrefs : ℕ)

namespace ScanRequest

def offset : ScanRequest → ℕ
  | strings query | analyzeStrings query => query.offset
  | findString search | xrefsToString search _ => search.offset

def limit : ScanRequest → ℕ
  | strings query | analyzeStrings query => query.limit
  | findString search | xrefsToString search _ => search.limit

def compile (engine : SearchEngine) : ScanRequest → Except ToolError (ℕ × List Char → Bool)
  | strings query | analyzeStrings query => query.compile engine.toTextEngine
  | findString search | xrefsToString search _ => search.compile engine

/-- Only the listing is sorted. -/
def order : ScanRequest → Option (SortKey StringInfo)
  | strings query => query.sortBy.map StringSort.key
  | _ => none

def descending : ScanRequest → Bool
  | strings query => query.descending
  | _ => false

/-- What the pages of a request are cut from. -/
def listed (r : ScanRequest) (keeps : ℕ × List Char → Bool) (index : List (ℕ × List Char)) :
    List StringInfo :=
  arranged r.order r.descending ((index.filter keeps).map stringInfo)

end ScanRequest

def ListPage.plain (page : ListPage StringInfo) : ListPage StringRow :=
  ⟨page.items.map (⟨·, []⟩), page.total, page.nextOffset⟩

def serve (kit : NextRule) (engine : SearchEngine) (idb : Option StringIdb) (r : ScanRequest)
    (index : List (ℕ × List Char)) :
    Except ToolError (ListPage StringRow) × List (ℕ × List Char) :=
  match r with
  | .strings query =>
    let answer := handleStrings kit engine.toTextEngine (idb.map StringIdb.toIdb) query index
    (answer.1.map ListPage.plain, answer.2)
  | .analyzeStrings query => handleAnalyzeStrings kit engine.toTextEngine idb query index
  | .findString search => handleFindString kit engine idb search index
  | .xrefsToString search maxXrefs => handleXrefsToString kit engine idb search maxXrefs index

end IdaHeadless.Listing
