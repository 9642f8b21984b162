import IdaHeadless.Paging
import IdaHeadless.ToolError
import Mathlib.Data.Int.Notation

/-!
# Searches that stop early (server/mod.rs, server/tools/memory.rs, query.rs, handlers/dscu.rs)

A search asks for one match more than the page holds, so that it can tell whether there is a
next page. `search` and `find_bytes` never ask for more than a fixed number of matches and say
when they ran into it; the searches of a shared cache have no such ceiling.
-/

namespace IdaHeadless.BoundedSearch

open Paging

variable {α β : Type}

/-- A search that can be stopped after a number of matches. -/
structure Scan (α : Type) where
  found : List α
  fits : found.length ≤ usizeMax
  scan : ℕ → List α
  scan_eq : ∀ count, scan count = found.take count

/-! ### search and find_bytes -/

/- `BOUNDED_SCAN_CEILING`. -/
def scanCeiling : ℕ := 20000

def boundedScanCeiling (offset limit : ℕ) (workerMaxResults : Option ℕ) : ℕ :=
  workerMaxResults.getD (min (saturatingAdd (saturatingAdd offset limit) 1) scanCeiling)

structure BoundedPage (α : Type) where
  matched : List α
  total : ℕ
  totalIsLowerBound : Bool
  nextOffset : Option ℕ
  deriving DecidableEq

def paginateBoundedMatches (found : List α) (offset limit ceiling : ℕ) : BoundedPage α :=
  let page := (found.drop offset).take limit
  let consumed := saturatingAdd offset page.length
  ⟨page, found.length, found.length ≥ ceiling,
    if found.length > consumed then some consumed else none⟩

/-- The entry of one target. -/
def searchTarget (search : Scan α) (offset limit : ℕ) (workerMaxResults : Option ℕ) :
    BoundedPage α :=
  let maxResults := boundedScanCeiling offset limit workerMaxResults
  paginateBoundedMatches (search.scan maxResults) offset (workerMaxResults.getD limit) maxResults

/-! ### The shared cache -/

def dscScanCount (offset limit : ℕ) : ℕ := saturatingAdd (saturatingAdd offset limit) 1

def dscPaginate (found : List α) (offset limit : ℕ) : List α × Option ℕ :=
  let page := found.drop offset
  (page.take limit, if page.length > limit then some (saturatingAdd offset limit) else none)

structure DscMatches (β : Type) where
  matched : List β
  nextOffset : Option ℕ
  deriving DecidableEq

/-- A search of the cache for one text; it answers false where nothing matches. -/
structure CacheSearch (α : Type) where
  found : List α
  fits : found.length ≤ usizeMax
  find : ℕ → Option (List α)
  find_eq : ∀ count, (find count).getD [] = found.take count

/-- `require` is the answer of `require_dscu`, and `row` renders a match. -/
def dscFind (require : Except ToolError Unit) (search : CacheSearch α) (row : α → β)
    (offset limit : ℕ) : Except ToolError (DscMatches β) := do
  require
  let page := dscPaginate ((search.find (dscScanCount offset limit)).getD []) offset limit
  .ok ⟨page.1.map row, page.2⟩

structure SymbolMatch where
  symbol : List Char
  address : ℕ
  imageIndex : ℤ
  deriving DecidableEq

structure DscSymbolMatch where
  symbol : List Char
  address : String
  addressValue : ℕ
  imageIndex : ℤ
  imageName : Option (List Char)
  deriving DecidableEq

structure StringMatch where
  address : ℕ
  imageIndex : ℤ
  fileIndex : ℕ
  fileOffset : ℕ
  context : List Char
  deriving DecidableEq

structure DscStringMatch where
  address : String
  addressValue : ℕ
  imageIndex : ℤ
  fileIndex : ℕ
  fileOffset : ℕ
  context : List Char
  deriving DecidableEq

/-- The shared cache behind a database, with the searches for a text in its symbols and in its
strings. -/
structure Dscu where
  require : Except ToolError Unit
  findSymbols : CacheSearch SymbolMatch
  findStrings : CacheSearch StringMatch
  imageName : ℤ → Option (List Char)

/- The table of the cache itself has the index -1 and no image. -/
def symbolMatch (dscu : Dscu) (value : SymbolMatch) : DscSymbolMatch :=
  ⟨value.symbol, hexAddr value.address, value.address, value.imageIndex,
    if value.imageIndex ≥ 0 then dscu.imageName value.imageIndex else none⟩

def stringMatch (value : StringMatch) : DscStringMatch :=
  ⟨hexAddr value.address, value.address, value.imageIndex, value.fileIndex, value.fileOffset,
    value.context⟩

def handleDscFindSymbols (dscu : Dscu) (offset limit : ℕ) :
    Except ToolError (DscMatches DscSymbolMatch) :=
  dscFind dscu.require dscu.findSymbols (symbolMatch dscu) offset limit

def handleDscFindStrings (dscu : Dscu) (offset limit : ℕ) :
    Except ToolError (DscMatches DscStringMatch) :=
  dscFind dscu.require dscu.findStrings stringMatch offset limit

/-! ### The walk of search and find_bytes -/

/- The ceiling is far below any saturation. -/
theorem boundedScanCeiling_none (offset limit : ℕ) :
    boundedScanCeiling offset limit none = min (offset + limit + 1) scanCeiling := by
  simp only [boundedScanCeiling, Option.getD_none, saturatingAdd, usizeMax, scanCeiling]
  omega

theorem searchTarget_total (search : Scan α) (offset limit : ℕ) :
    (searchTarget search offset limit none).total =
      min (min (offset + limit + 1) scanCeiling) search.found.length := by
  simp only [searchTarget, paginateBoundedMatches, search.scan_eq, List.length_take,
    boundedScanCeiling_none]

theorem searchTarget_lower_iff (search : Scan α) (offset limit : ℕ) :
    (searchTarget search offset limit none).totalIsLowerBound = true ↔
      min (offset + limit + 1) scanCeiling ≤ search.found.length := by
  simp only [searchTarget, paginateBoundedMatches, search.scan_eq, List.length_take,
    boundedScanCeiling_none, decide_eq_true_eq]
  omega

/- A total that is no lower bound is the number of matches. -/
theorem searchTarget_exact (search : Scan α) (offset limit : ℕ)
    (h : (searchTarget search offset limit none).totalIsLowerBound = false) :
    (searchTarget search offset limit none).total = search.found.length := by
  have hlower := searchTarget_lower_iff search offset limit
  rw [h] at hlower
  rw [searchTarget_total]
  simp only [Bool.false_eq_true, false_iff, Nat.not_le] at hlower
  omega

/- Every scan reaches one match behind its page or the ceiling. -/
theorem paginateBoundedMatches_pages (found : List α) (hfits : found.length ≤ usizeMax)
    (ceiling limit : ℕ) :
    Pages (found.take (min found.length ceiling)) limit
      (fun offset => paginateBoundedMatches (found.take (min (offset + limit + 1) ceiling)) offset
        limit (min (offset + limit + 1) ceiling))
      BoundedPage.matched BoundedPage.nextOffset := by
  have hlen : (found.take (min found.length ceiling)).length = min found.length ceiling := by
    rw [List.length_take]
    omega
  constructor
  · intro offset
    have hscan : found.take (min (offset + limit + 1) ceiling) =
        (found.take (min found.length ceiling)).take (min (offset + limit + 1) ceiling) := by
      rw [List.take_take, List.take_eq_take_iff]
      omega
    show slice (found.take (min (offset + limit + 1) ceiling)) offset limit = _
    rw [hscan, slice_take]
    rw [hlen]
    omega
  · intro offset
    simp only [paginateBoundedMatches, List.length_take, List.length_drop, saturatingAdd, gt_iff_lt]
    by_cases hmore : offset + limit < min found.length ceiling
    · rw [if_pos (by omega), if_pos (by omega), Option.some.injEq]
      omega
    · rw [if_neg (by omega), if_neg (by omega)]

theorem searchTarget_eq (search : Scan α) (offset limit : ℕ) :
    searchTarget search offset limit none =
      paginateBoundedMatches (search.found.take (min (offset + limit + 1) scanCeiling)) offset limit
        (min (offset + limit + 1) scanCeiling) := by
  rw [searchTarget, boundedScanCeiling_none, search.scan_eq, Option.getD_none]

/-! ### The walk through a shared cache -/

theorem dscPaginate_pages (search : CacheSearch α) (limit : ℕ) :
    Pages search.found limit
      (fun offset => dscPaginate ((search.find (dscScanCount offset limit)).getD []) offset limit)
      Prod.fst Prod.snd := by
  have hfits := search.fits
  constructor
  · intro offset
    show slice ((search.find (dscScanCount offset limit)).getD []) offset limit = _
    rw [search.find_eq, slice_take]
    simp only [dscScanCount, saturatingAdd]
    omega
  · intro offset
    simp only [dscPaginate, search.find_eq, dscScanCount, saturatingAdd, List.length_drop,
      List.length_take, gt_iff_lt]
    by_cases hmore : offset + limit < search.found.length
    · rw [if_pos (by omega), if_pos (by omega), Option.some.injEq]
      omega
    · rw [if_neg (by omega), if_neg (by omega)]

theorem dscFind_pages {require : Except ToolError Unit} (hrequire : require = .ok ())
    (search : CacheSearch α) (row : α → β) (limit : ℕ) :
    Pages (search.found.map row) limit (dscFind require search row · limit)
      (rowsOf DscMatches.matched) (nextOf DscMatches.nextOffset) := by
  subst hrequire
  have hcut := (dscPaginate_pages search limit).map row
  exact ⟨hcut.rows_eq, hcut.next_eq⟩

/-- Following the offsets of a search reads what its scans can reach, and a scan that cannot
reach the last match says so. -/
theorem bounded_search_paging (search : Scan α) (dscu : Dscu) (hdscu : dscu.require = .ok ())
    (limit : ℕ) (hlimit : 1 ≤ limit) :
    (∃ pages, (∀ fuel, search.found.length < fuel →
        follow (fun _ offset => (searchTarget search offset limit none, ()))
          BoundedPage.nextOffset fuel () 0 = some pages) ∧
      pages.flatMap BoundedPage.matched =
        search.found.take (min search.found.length scanCeiling) ∧
      ((pages.flatMap BoundedPage.matched).length < search.found.length →
        ∃ page ∈ pages, page.totalIsLowerBound = true)) ∧
    (∀ offset, (searchTarget search offset limit none).totalIsLowerBound = false →
      (searchTarget search offset limit none).total = search.found.length) ∧
    (∃ pages, (∀ fuel, dscu.findSymbols.found.length < fuel →
        follow (fun _ offset => (handleDscFindSymbols dscu offset limit, ()))
          (nextOf DscMatches.nextOffset) fuel () 0 = some pages) ∧
      pages.flatMap (rowsOf DscMatches.matched) =
        dscu.findSymbols.found.map (symbolMatch dscu)) ∧
    ∃ pages, (∀ fuel, dscu.findStrings.found.length < fuel →
        follow (fun _ offset => (handleDscFindStrings dscu offset limit, ()))
          (nextOf DscMatches.nextOffset) fuel () 0 = some pages) ∧
      pages.flatMap (rowsOf DscMatches.matched) = dscu.findStrings.found.map stringMatch := by
  refine ⟨?_, fun offset => searchTarget_exact search offset limit, ?_, ?_⟩
  · obtain ⟨pages, hfollow, hrows, hpages⟩ :=
      follow_all (paginateBoundedMatches_pages search.found search.fits scanCeiling limit) hlimit
        (fun _ offset => (searchTarget search offset limit none, ())) ()
        fun offset => by rw [searchTarget_eq]
    refine ⟨pages, fun fuel hfuel => hfollow fuel ?_, hrows, fun hshort => ?_⟩
    · rw [List.length_take]
      omega
    · -- every scan of the walk ends at its own ceiling
      rw [hrows, List.length_take] at hshort
      have hne : pages ≠ [] := by
        intro hnil
        have hfirst := hfollow (search.found.length + 1) (by rw [List.length_take]; omega)
        rw [hnil, follow] at hfirst
        split at hfirst
        · cases hfirst
        · obtain ⟨ps, -, hps⟩ := Option.map_eq_some_iff.mp hfirst
          cases hps
      obtain ⟨page, rest, rfl⟩ := List.exists_cons_of_ne_nil hne
      obtain ⟨offset, hoffset⟩ := hpages page List.mem_cons_self
      refine ⟨page, List.mem_cons_self, ?_⟩
      rw [hoffset, ← searchTarget_eq, searchTarget_lower_iff]
      omega
  · obtain ⟨pages, hfollow, hrows, -⟩ :=
      follow_all (dscFind_pages hdscu dscu.findSymbols (symbolMatch dscu) limit) hlimit
        (fun _ offset => (handleDscFindSymbols dscu offset limit, ())) () fun _ => rfl
    rw [List.length_map] at hfollow
    exact ⟨pages, hfollow, hrows⟩
  · obtain ⟨pages, hfollow, hrows, -⟩ :=
      follow_all (dscFind_pages hdscu dscu.findStrings stringMatch limit) hlimit
        (fun _ offset => (handleDscFindStrings dscu offset limit, ())) () fun _ => rfl
    rw [List.length_map] at hfollow
    exact ⟨pages, hfollow, hrows⟩

/-- Three matches, and a cache with two symbols and no string. -/
def threeMatches : Scan String :=
  ⟨["0x10", "0x20", "0x30"], by decide, fun count => ["0x10", "0x20", "0x30"].take count,
    fun _ => rfl⟩

def smallCache : Dscu where
  require := .ok ()
  findSymbols := ⟨[⟨['a'], 16, 0⟩, ⟨['b'], 32, -1⟩], by decide,
    fun count => some ([⟨['a'], 16, 0⟩, ⟨['b'], 32, -1⟩].take count), fun _ => rfl⟩
  findStrings := ⟨[], by decide, fun _ => none, fun _ => List.take_nil.symm⟩
  imageName _ := some ['/', 'u']

theorem bounded_search_paging_three :
    (∃ pages, follow (fun _ offset => (searchTarget threeMatches offset 2 none, ()))
        BoundedPage.nextOffset 4 () 0 = some pages ∧
      pages.flatMap BoundedPage.matched = ["0x10", "0x20", "0x30"]) ∧
    ∃ pages, follow (fun _ offset => (handleDscFindSymbols smallCache offset 2, ()))
        (nextOf DscMatches.nextOffset) 3 () 0 = some pages ∧
      pages.flatMap (rowsOf DscMatches.matched) =
        [⟨['a'], "0x10", 16, 0, some ['/', 'u']⟩, ⟨['b'], "0x20", 32, -1, none⟩] := by
  obtain ⟨⟨pages, hfollow, hrows, -⟩, -, ⟨pages', hfollow', hrows'⟩, -⟩ :=
    bounded_search_paging threeMatches smallCache rfl 2 (by decide)
  exact ⟨⟨pages, hfollow 4 (by decide), hrows.trans (by decide)⟩,
    pages', hfollow' 3 (by decide), hrows'.trans (by decide)⟩

end IdaHeadless.BoundedSearch
