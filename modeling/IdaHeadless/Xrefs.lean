import IdaHeadless.Paging
import IdaHeadless.ToolError
import Mathlib.Tactic.Common

/-!
# Cross references in pages (handlers/xrefs.rs, query.rs)

A chain of cross references is walked once. A reference that the kind keeps and, where
duplicates are dropped, that is the first with its source, target and type is shown to a cursor
that skips up to the offset, takes up to the limit and stops at the row behind.
-/

namespace IdaHeadless.Xrefs

open Paging

/-! ### The database -/

/- `type` is the text of `{:?}`. -/
structure XRef where
  source : ℕ
  target : ℕ
  type : List Char
  isCode : Bool
  deriving DecidableEq

/-- A chain that a `usize` can count. -/
structure XrefChain where
  refs : List XRef
  fits : refs.length ≤ usizeMax

structure Function where
  startAddress : ℕ
  name : Option (List Char)

/-- What the handlers read of a database. -/
structure Idb where
  functionAt : ℕ → Option Function
  xrefsTo : ℕ → XrefChain
  xrefsFrom : ℕ → XrefChain

/-! ### The query -/

inductive XrefKind where
  | any
  | code
  | data
  deriving DecidableEq

def XrefKind.keeps : XrefKind → Bool → Bool
  | .any, _ => true
  | .code, isCode => isCode
  | .data, isCode => !isCode

structure XrefQuery where
  offset : ℕ
  limit : ℕ
  kind : XrefKind
  dedup : Bool
  includeFunction : Bool

def XrefQuery.paged (offset limit : ℕ) : XrefQuery := ⟨offset, limit, .any, false, false⟩

structure FunctionRef where
  address : String
  name : List Char
  deriving DecidableEq

structure XRefInfo where
  source : String
  target : String
  type : List Char
  isCode : Bool
  fromFunction : Option FunctionRef
  deriving DecidableEq

structure XRefListResult where
  xrefs : List XRefInfo
  truncated : Bool
  nextOffset : Option ℕ
  deriving DecidableEq

def toXrefInfo (xref : XRef) : XRefInfo :=
  ⟨hexAddr xref.source, hexAddr xref.target, xref.type, xref.isCode, none⟩

/- `sub_1000` stands in for a missing name. -/
def enclosingFunction (db : Idb) (addr : ℕ) : Option FunctionRef :=
  (db.functionAt addr).map fun func =>
    ⟨hexAddr func.startAddress,
      func.name.getD (['s', 'u', 'b', '_'] ++ Nat.toDigits 16 func.startAddress)⟩

/-- The row of a reference. -/
def XrefQuery.info (query : XrefQuery) (db : Idb) (xref : XRef) : XRefInfo :=
  if query.includeFunction then
    { toXrefInfo xref with fromFunction := enclosingFunction db xref.source }
  else toXrefInfo xref

/-! ### The walk -/

inductive Admit where
  | skip
  | take
  | stop
  deriving DecidableEq

structure PageCursor where
  offset : ℕ
  limit : ℕ
  kept : ℕ
  taken : ℕ

def PageCursor.new (offset limit : ℕ) : PageCursor := ⟨offset, limit, 0, 0⟩

def PageCursor.admit (cursor : PageCursor) : Admit × PageCursor :=
  if cursor.kept < cursor.offset then (.skip, { cursor with kept := cursor.kept + 1 })
  else if cursor.taken = cursor.limit then (.stop, cursor)
  else (.take, { cursor with kept := cursor.kept + 1, taken := cursor.taken + 1 })

/-- What `seen` records. -/
def XRef.triple (xref : XRef) : ℕ × ℕ × List Char := (xref.source, xref.target, xref.type)

/-- `seen.insert`, which is evaluated where `dedup` is set. -/
def XrefQuery.remember (query : XrefQuery) (xref : XRef) (seen : List (ℕ × ℕ × List Char)) :
    List (ℕ × ℕ × List Char) :=
  if query.dedup then xref.triple :: seen else seen

def collect (db : Idb) (query : XrefQuery) :
    List XRef → List (ℕ × ℕ × List Char) → List XRefInfo → PageCursor → List XRefInfo × Bool
  | [], _, xrefs, _ => (xrefs, false)
  | xref :: rest, seen, xrefs, cursor =>
    if query.kind.keeps xref.isCode then
      if query.dedup ∧ xref.triple ∈ seen then collect db query rest seen xrefs cursor
      else
        match cursor.admit with
        | (.skip, cursor) => collect db query rest (query.remember xref seen) xrefs cursor
        | (.take, cursor) =>
          collect db query rest (query.remember xref seen) (xrefs ++ [query.info db xref]) cursor
        | (.stop, _) => (xrefs, true)
    else collect db query rest seen xrefs cursor

/- `kit` is `vibrev_kit::page::next_offset`. -/
def collectQuery (kit : NextRule) (db : Idb) (chain : XrefChain) (query : XrefQuery) :
    XRefListResult :=
  let walked := collect db query chain.refs [] [] (.new query.offset query.limit)
  let atLeast := saturatingAdd (saturatingAdd query.offset walked.1.length)
    (if walked.2 then 1 else 0)
  ⟨walked.1, walked.2, kit.next query.offset walked.1.length atLeast⟩

def handleXrefsTo (kit : NextRule) (idb : Option Idb) (addr : ℕ) (query : XrefQuery) :
    Except ToolError XRefListResult := do
  let db ← idb.elim (.error .noDatabaseOpen) .ok
  .ok (collectQuery kit db (db.xrefsTo addr) query)

def handleXrefsFrom (kit : NextRule) (idb : Option Idb) (addr : ℕ) (query : XrefQuery) :
    Except ToolError XRefListResult := do
  let db ← idb.elim (.error .noDatabaseOpen) .ok
  .ok (collectQuery kit db (db.xrefsFrom addr) query)

/-! ### The rows of a query -/

/-- The references that no earlier one repeats. -/
def firstOfEach (refs : List XRef) : List XRef :=
  (refs.zipIdx.filter fun p => (refs.take p.2).all (·.triple ≠ p.1.triple)).map Prod.fst

def XrefQuery.ofKind (query : XrefQuery) (refs : List XRef) : List XRef :=
  refs.filter fun xref => query.kind.keeps xref.isCode

/-- The rows that the pages of a query are cut from. -/
def XrefQuery.rows (query : XrefQuery) (chain : XrefChain) : List XRef :=
  if query.dedup then firstOfEach (query.ofKind chain.refs) else query.ofKind chain.refs

variable {db : Idb} {query : XrefQuery} {xrefs : List XRefInfo}

/-- The walk without the filters: the rows go to the cursor one by one. -/
def window (db : Idb) (query : XrefQuery) :
    List XRef → List XRefInfo → PageCursor → List XRefInfo × Bool
  | [], xrefs, _ => (xrefs, false)
  | xref :: rest, xrefs, cursor =>
    match cursor.admit with
    | (.skip, cursor) => window db query rest xrefs cursor
    | (.take, cursor) => window db query rest (xrefs ++ [query.info db xref]) cursor
    | (.stop, _) => (xrefs, true)

/-- The rows that are left when the triples of `seen` are behind. -/
def unseen (query : XrefQuery) : List XRef → List (ℕ × ℕ × List Char) → List XRef
  | [], _ => []
  | xref :: rest, seen =>
    if query.kind.keeps xref.isCode then
      if query.dedup ∧ xref.triple ∈ seen then unseen query rest seen
      else xref :: unseen query rest (query.remember xref seen)
    else unseen query rest seen

/- Dropping a reference consumes no position of the page. -/
theorem collect_eq_window (refs : List XRef) (seen : List (ℕ × ℕ × List Char))
    (xrefs : List XRefInfo) (cursor : PageCursor) :
    collect db query refs seen xrefs cursor =
      window db query (unseen query refs seen) xrefs cursor := by
  induction refs generalizing seen xrefs cursor with
  | nil => rfl
  | cons xref rest ih =>
    by_cases hkind : query.kind.keeps xref.isCode = true
    · by_cases hdup : query.dedup = true ∧ xref.triple ∈ seen
      · rw [collect, unseen, if_pos hkind, if_pos hkind, if_pos hdup, if_pos hdup, ih]
      · rw [collect, unseen, if_pos hkind, if_pos hkind, if_neg hdup, if_neg hdup, window]
        split
        · rw [ih]
        · rw [ih]
        · rfl
    · rw [collect, unseen, if_neg hkind, if_neg hkind, ih]

/- Behind the offset the cursor takes what is left of the limit. -/
theorem window_take (refs : List XRef) (xrefs : List XRefInfo) (cursor : PageCursor)
    (hoffset : cursor.offset ≤ cursor.kept) (htaken : cursor.taken ≤ cursor.limit) :
    window db query refs xrefs cursor =
      (xrefs ++ (refs.take (cursor.limit - cursor.taken)).map (query.info db),
        decide (cursor.limit - cursor.taken < refs.length)) := by
  induction refs generalizing xrefs cursor with
  | nil => simp [window]
  | cons xref rest ih =>
    have hskip : ¬ cursor.kept < cursor.offset := by omega
    by_cases hfull : cursor.taken = cursor.limit
    · simp [window, PageCursor.admit, hskip, hfull]
    · have hnext := ih (xrefs ++ [query.info db xref])
        { cursor with kept := cursor.kept + 1, taken := cursor.taken + 1 }
        (by simp only; omega) (by simp only; omega)
      obtain ⟨room, hroom⟩ : ∃ room, cursor.limit - cursor.taken = room + 1 :=
        ⟨cursor.limit - cursor.taken - 1, by omega⟩
      have hroom' : cursor.limit - (cursor.taken + 1) = room := by omega
      simp only [window, PageCursor.admit, hskip, hfull, if_false, hnext, hroom, hroom',
        List.take_succ_cons, List.map_cons, List.append_assoc, List.singleton_append,
        List.length_cons, Nat.add_lt_add_iff_right]

/- Up to the offset it skips. -/
theorem window_skip (k : ℕ) (refs : List XRef) (cursor : PageCursor)
    (hkept : cursor.kept + k = cursor.offset) :
    window db query refs xrefs cursor =
      window db query (refs.drop k) xrefs { cursor with kept := cursor.offset } := by
  induction k generalizing refs cursor with
  | zero =>
    obtain ⟨offset, limit, kept, taken⟩ := cursor
    simp only [Nat.add_zero] at hkept
    rw [hkept, List.drop_zero]
  | succ k ih =>
    cases refs with
    | nil => simp [window]
    | cons xref rest =>
      have hskip : cursor.kept < cursor.offset := by omega
      have hnext := ih rest { cursor with kept := cursor.kept + 1 } (by simp only; omega)
      simp only [window, PageCursor.admit, hskip, if_true, hnext, List.drop_succ_cons]

theorem window_new (refs : List XRef) :
    window db query refs [] (.new query.offset query.limit) =
      ((slice refs query.offset query.limit).map (query.info db),
        decide (query.offset + query.limit < refs.length)) := by
  rw [window_skip query.offset refs _ (Nat.zero_add _),
    window_take _ _ _ (Nat.le_refl _) (Nat.zero_le _)]
  simp only [PageCursor.new, Nat.sub_zero, List.nil_append, List.length_drop, slice]
  congr 1
  exact decide_eq_decide.mpr (by omega)

theorem ofKind_cons_of_pos {xref : XRef} {rest : List XRef}
    (h : query.kind.keeps xref.isCode = true) :
    query.ofKind (xref :: rest) = xref :: query.ofKind rest := List.filter_cons_of_pos h

theorem ofKind_cons_of_neg {xref : XRef} {rest : List XRef}
    (h : ¬ query.kind.keeps xref.isCode = true) :
    query.ofKind (xref :: rest) = query.ofKind rest := List.filter_cons_of_neg h

/- `before` are the references of the kind that are already behind. -/
theorem unseen_dedup (hdedup : query.dedup = true) (refs : List XRef)
    (seen : List (ℕ × ℕ × List Char)) (before : List XRef)
    (hseen : ∀ k, k ∈ seen ↔ ∃ y ∈ before, y.triple = k) :
    unseen query refs seen = (((query.ofKind refs).zipIdx before.length).filter fun p =>
      ((before ++ query.ofKind refs).take p.2).all (·.triple ≠ p.1.triple)).map Prod.fst := by
  induction refs generalizing seen before with
  | nil => rfl
  | cons xref rest ih =>
    by_cases hkind : query.kind.keeps xref.isCode = true
    · have hbefore : ∀ k, k ∈ xref.triple :: seen ↔ ∃ y ∈ before ++ [xref], y.triple = k := by
        intro k
        simp only [List.mem_cons, hseen, List.mem_append, List.not_mem_nil, or_false, or_and_right,
          exists_or, exists_eq_left]
        rw [or_comm, eq_comm]
      have hfirst : (before ++ xref :: query.ofKind rest).take before.length = before :=
        List.take_left
      rw [unseen, if_pos hkind, ofKind_cons_of_pos hkind, List.zipIdx_cons]
      by_cases hdup : xref.triple ∈ seen
      · -- it is dropped, and `seen` holds its triple already
        obtain ⟨y, hy, hyk⟩ := (hseen _).mp hdup
        have htail := ih seen (before ++ [xref]) fun k => by
          rw [← hbefore, List.mem_cons]
          exact ⟨Or.inr, fun hk => hk.elim (fun he => he ▸ hdup) id⟩
        simp only [List.length_append, List.length_singleton, List.append_assoc,
          List.singleton_append] at htail
        rw [if_pos ⟨hdedup, hdup⟩, htail, List.filter_cons_of_neg]
        simp only [hfirst, List.all_eq_true, decide_eq_true_eq]
        exact fun hall => hall y hy hyk
      · have htail := ih (xref.triple :: seen) (before ++ [xref]) hbefore
        simp only [List.length_append, List.length_singleton, List.append_assoc,
          List.singleton_append] at htail
        rw [if_neg fun h => hdup h.2, XrefQuery.remember, if_pos hdedup, htail,
          List.filter_cons_of_pos, List.map_cons]
        simp only [hfirst, List.all_eq_true, decide_eq_true_eq]
        exact fun y hy hyk => hdup ((hseen _).mpr ⟨y, hy, hyk⟩)
    · rw [unseen, if_neg hkind, ofKind_cons_of_neg hkind]
      exact ih seen before hseen

theorem unseen_plain (hdedup : query.dedup = false) (refs : List XRef)
    (seen : List (ℕ × ℕ × List Char)) :
    unseen query refs seen = query.ofKind refs := by
  induction refs generalizing seen with
  | nil => rfl
  | cons xref rest ih =>
    by_cases hkind : query.kind.keeps xref.isCode = true
    · rw [unseen, if_pos hkind, if_neg (by simp [hdedup]), ih, ofKind_cons_of_pos hkind]
    · rw [unseen, if_neg hkind, ih, ofKind_cons_of_neg hkind]

theorem unseen_eq_rows (query : XrefQuery) (chain : XrefChain) :
    unseen query chain.refs [] = query.rows chain := by
  cases hdedup : query.dedup with
  | false => rw [unseen_plain hdedup, XrefQuery.rows, hdedup, if_neg Bool.false_ne_true]
  | true =>
    have hnone :
        ∀ k, k ∈ ([] : List (ℕ × ℕ × List Char)) ↔ ∃ y ∈ ([] : List XRef), y.triple = k := by
      simp
    rw [unseen_dedup hdedup chain.refs [] [] hnone, XrefQuery.rows, hdedup, if_pos rfl]
    rfl

/-- The number of rows is a `usize` too. -/
theorem length_rows_le (query : XrefQuery) (chain : XrefChain) :
    (query.rows chain).length ≤ usizeMax := by
  have hfilter : (query.ofKind chain.refs).length ≤ usizeMax :=
    Nat.le_trans (List.length_filter_le _ _) chain.fits
  rw [XrefQuery.rows]
  split
  · rw [firstOfEach, List.length_map]
    refine Nat.le_trans (List.length_filter_le _ _) ?_
    rw [List.length_zipIdx]
    exact hfilter
  · exact hfilter

/-! ### The page -/

theorem collect_rows (db : Idb) (query : XrefQuery) (chain : XrefChain) :
    collect db query chain.refs [] [] (.new query.offset query.limit) =
      ((slice (query.rows chain) query.offset query.limit).map (query.info db),
        decide (query.offset + query.limit < (query.rows chain).length)) := by
  rw [collect_eq_window, unseen_eq_rows, window_new]

/- The synthesised total names another page exactly where there is one. -/
theorem collectQuery_nextOffset (kit : NextRule) (db : Idb) (query : XrefQuery)
    (chain : XrefChain) (hlimit : 1 ≤ query.limit) :
    (collectQuery kit db chain query).nextOffset =
      if query.offset + query.limit < (query.rows chain).length then
        some (query.offset + query.limit)
      else none := by
  have hfits := length_rows_le query chain
  rw [collectQuery, collect_rows]
  simp only [kit.next_eq, List.length_map, decide_eq_true_eq]
  by_cases hmore : query.offset + query.limit < (query.rows chain).length
  · rw [if_pos hmore, if_pos hmore, length_slice_of_lt hmore,
      saturatingAdd_of_le (a := query.offset) (by omega), saturatingAdd_of_le (by omega),
      if_pos ⟨hlimit, Nat.lt_succ_self _⟩]
  · have hend : ¬ query.offset + (slice (query.rows chain) query.offset query.limit).length <
        saturatingAdd (saturatingAdd query.offset
          (slice (query.rows chain) query.offset query.limit).length) 0 := by
      simp only [saturatingAdd]
      omega
    rw [if_neg hmore, if_neg hmore, if_neg fun h => hend h.2]

/-- Every page is a slice of the rows, and following the offsets reads them all. -/
theorem xref_paging (kit : NextRule) (db : Idb) (chain : XrefChain) (query : XrefQuery) :
    (collectQuery kit db chain query).xrefs =
      (slice (query.rows chain) query.offset query.limit).map (query.info db) ∧
    ((collectQuery kit db chain query).truncated = true ↔
      query.offset + query.limit < (query.rows chain).length) ∧
    (1 ≤ query.limit → ∃ pages,
      (∀ fuel, (query.rows chain).length < fuel →
        follow (fun _ offset => (collectQuery kit db chain { query with offset }, ()))
          XRefListResult.nextOffset fuel () 0 = some pages) ∧
      pages.flatMap XRefListResult.xrefs = (query.rows chain).map (query.info db)) ∧
    (query.limit = 0 → (collectQuery kit db chain query).nextOffset = none) := by
  refine ⟨?_, ?_, ?_, ?_⟩
  · rw [collectQuery, collect_rows]
  · rw [collectQuery, collect_rows]
    exact decide_eq_true_iff
  · intro hlimit
    have hpages : Pages ((query.rows chain).map (query.info db)) query.limit
        (fun offset => collectQuery kit db chain { query with offset }) XRefListResult.xrefs
        XRefListResult.nextOffset := by
      constructor
      · intro offset
        rw [collectQuery, collect_rows]
        simp only [slice, ← List.map_drop, ← List.map_take]
        rfl
      · intro offset
        have hnext := collectQuery_nextOffset kit db { query with offset } chain hlimit
        rw [hnext, List.length_map]
        rfl
    obtain ⟨pages, hfollow, hrows, -⟩ := follow_all hpages hlimit
      (fun _ offset => (collectQuery kit db chain { query with offset }, ())) () fun _ => rfl
    rw [List.length_map] at hfollow
    exact ⟨pages, hfollow, hrows⟩
  · intro hlimit
    have hnone : slice (query.rows chain) query.offset query.limit = [] := by
      rw [hlimit, slice, List.take_zero]
    rw [collectQuery, collect_rows, hnone]
    simp only [List.map_nil, List.length_nil, kit.next_eq, Nat.lt_irrefl, false_and, if_false]

/-- A switch table repeats a reference. -/
def switchTable : XrefChain :=
  ⟨[⟨16, 64, ['D'], false⟩, ⟨32, 64, ['C'], true⟩, ⟨16, 64, ['D'], false⟩, ⟨48, 64, ['D'], false⟩],
    by decide⟩

theorem xref_paging_switch :
    ∃ pages, follow (fun _ offset => (collectQuery .plain ⟨fun _ => none, fun _ => switchTable,
        fun _ => switchTable⟩ switchTable ⟨offset, 1, .data, true, false⟩, ()))
        XRefListResult.nextOffset 3 () 0 = some pages ∧
      pages.flatMap XRefListResult.xrefs =
        [⟨"0x10", "0x40", ['D'], false, none⟩, ⟨"0x30", "0x40", ['D'], false, none⟩] := by
  obtain ⟨-, -, hwalk, -⟩ := xref_paging .plain ⟨fun _ => none, fun _ => switchTable,
    fun _ => switchTable⟩ switchTable ⟨0, 1, .data, true, false⟩
  obtain ⟨pages, hfollow, hrows⟩ := hwalk (by decide)
  exact ⟨pages, hfollow 3 (by decide), hrows.trans (by decide)⟩

end IdaHeadless.Xrefs
