import IdaHeadless.Paging
import IdaHeadless.ToolError
import Mathlib.Data.Char
import Mathlib.Data.List.Lex
import Mathlib.Order.Lattice

/-!
# The loop of a listing (handlers/functions.rs, query.rs)

Every listing makes one pass over its items. It counts the items that it keeps and, where no
order is asked for, collects the page on the way. With an order it collects every row, sorts
them, and then cuts out the page.
-/

namespace IdaHeadless.Listing

open Paging

variable {α β κ P σ : Type*}

/-! ### Orders -/

/-- What `sort_by` and `sort_by_key` need of a comparison. -/
structure SortKey (α : Type*) where
  le : α → α → Bool
  trans : ∀ a b c, le a b = true → le b c = true → le a c = true
  total : ∀ a b, (le a b || le b a) = true

def SortKey.by [LinearOrder κ] (key : α → κ) : SortKey α where
  le a b := decide (key a ≤ key b)
  trans a b c hab hbc := by
    simp only [decide_eq_true_eq] at hab hbc ⊢
    exact le_trans hab hbc
  total a b := by
    simp only [Bool.or_eq_true, decide_eq_true_eq]
    exact le_total _ _

/- The sort is stable, and `reverse` turns the ties round as well. -/
def arranged (order : Option (SortKey α)) (descending : Bool) (rows : List α) : List α :=
  match order with
  | none => rows
  | some key =>
    let sorted := rows.mergeSort key.le
    if descending then sorted.reverse else sorted

/-- The rows in the order that was asked for, each of them once. -/
def InOrder (order : Option (SortKey α)) (descending : Bool) (rows l : List α) : Prop :=
  match order with
  | none => l = rows
  | some key => l.Perm rows ∧
      l.Pairwise fun a b => if descending then key.le b a = true else key.le a b = true

theorem arranged_inOrder (order : Option (SortKey α)) (descending : Bool) (rows : List α) :
    InOrder order descending rows (arranged order descending rows) := by
  cases order with
  | none => rfl
  | some key =>
    have hsorted := List.pairwise_mergeSort key.trans key.total rows
    cases descending with
    | false => exact ⟨List.mergeSort_perm rows key.le, by simpa [arranged] using hsorted⟩
    | true =>
      refine ⟨(List.reverse_perm _).trans (List.mergeSort_perm rows key.le), ?_⟩
      simpa [arranged, List.pairwise_reverse] using hsorted

theorem arranged_perm (order : Option (SortKey α)) (descending : Bool) (rows : List α) :
    (arranged order descending rows).Perm rows := by
  have horder := arranged_inOrder order descending rows
  cases order with
  | none => exact List.Perm.refl _
  | some key => exact horder.1

/-! ### The loop -/

/-- The items in turn: the rows so far and the number of items that were kept. A row may show how
many came before it. -/
def collectRows (keeps : β → Bool) (row : ℕ → β → α) (fullScan : Bool) (offset limit : ℕ) :
    List β → List α → ℕ → List α × ℕ
  | [], rows, total => (rows, total)
  | item :: items, rows, total =>
    if keeps item then
      if fullScan = false ∧ (total < offset ∨ rows.length ≥ limit) then
        collectRows keeps row fullScan offset limit items rows (total + 1)
      else collectRows keeps row fullScan offset limit items (rows ++ [row total item]) (total + 1)
    else collectRows keeps row fullScan offset limit items rows total

/-- Sort, reverse, and drain the page. Without an order nothing is done. -/
def sortRows (order : Option (SortKey α)) (descending : Bool) (offset limit : ℕ) (rows : List α) :
    List α :=
  if order.isSome then
    let rows := arranged order descending rows
    let start := min offset rows.length
    let stop := min (saturatingAdd start limit) rows.length
    slice rows start (stop - start)
  else rows

structure ListPage (α : Type*) where
  items : List α
  total : ℕ
  nextOffset : Option ℕ

/- `kit` is `vibrev_kit::page::next_offset`. -/
def listPage (kit : NextRule) (keeps : β → Bool) (row : ℕ → β → α) (order : Option (SortKey α))
    (descending : Bool) (offset limit : ℕ) (items : List β) : ListPage α :=
  let walked := collectRows keeps row order.isSome offset limit items [] 0
  let rows := sortRows order descending offset limit walked.1
  ⟨rows, walked.2, kit.next offset rows.length walked.2⟩

/-! ### The pages are slices -/

variable {keeps : β → Bool} {row : ℕ → β → α}

def rowsFrom (keeps : β → Bool) (row : ℕ → β → α) (items : List β) (before : ℕ) : List α :=
  ((items.filter keeps).zipIdx before).map fun p => row p.2 p.1

/-- All rows of a listing. -/
def allRows (keeps : β → Bool) (row : ℕ → β → α) (items : List β) : List α :=
  rowsFrom keeps row items 0

theorem rowsFrom_cons_of_pos {item : β} (h : keeps item = true) (items : List β) (before : ℕ) :
    rowsFrom keeps row (item :: items) before =
      row before item :: rowsFrom keeps row items (before + 1) := by
  rw [rowsFrom, List.filter_cons_of_pos h, List.zipIdx_cons, List.map_cons, rowsFrom]

theorem rowsFrom_cons_of_neg {item : β} (h : ¬ keeps item = true) (items : List β) (before : ℕ) :
    rowsFrom keeps row (item :: items) before = rowsFrom keeps row items before := by
  rw [rowsFrom, List.filter_cons_of_neg h, rowsFrom]

theorem length_rowsFrom (items : List β) (before : ℕ) :
    (rowsFrom keeps row items before).length = (items.filter keeps).length := by
  rw [rowsFrom, List.length_map, List.length_zipIdx]

theorem length_allRows_le (items : List β) : (allRows keeps row items).length ≤ items.length := by
  rw [allRows, length_rowsFrom]
  exact List.length_filter_le _ _

/- A row behind a page that is full, or before a page that has not begun, is not on it. -/
theorem slice_concat (l : List α) (r : α) (offset limit : ℕ) :
    slice (l ++ [r]) offset limit =
      if l.length < offset ∨ (slice l offset limit).length ≥ limit then slice l offset limit
      else slice l offset limit ++ [r] := by
  rw [length_slice, slice, slice]
  rcases Nat.lt_or_ge l.length offset with hbefore | hin
  · rw [if_pos (.inl hbefore), List.drop_of_length_le (by simp; omega),
      List.drop_of_length_le (by omega)]
  · rw [List.drop_append_of_le_length hin]
    by_cases hfull : limit ≤ l.length - offset
    · rw [if_pos (.inr (by omega)), List.take_append_of_le_length (by rw [List.length_drop]; omega)]
    · rw [if_neg (by omega), List.take_of_length_le (by simp; omega),
        List.take_of_length_le (by rw [List.length_drop]; omega)]

/- Without an order the loop keeps the page of the rows that it has passed. -/
theorem collectRows_stream (offset limit : ℕ) (items : List β) (passed : List α) :
    collectRows keeps row false offset limit items (slice passed offset limit) passed.length =
      (slice (passed ++ rowsFrom keeps row items passed.length) offset limit,
        passed.length + (items.filter keeps).length) := by
  induction items generalizing passed with
  | nil => simp [collectRows, rowsFrom]
  | cons item items ih =>
    rw [collectRows]
    by_cases hkeeps : keeps item = true
    · have hnext := ih (passed ++ [row passed.length item])
      rw [List.length_append, List.length_singleton, slice_concat, List.append_assoc,
        List.singleton_append, Nat.add_assoc, Nat.add_comm 1] at hnext
      rw [if_pos hkeeps, rowsFrom_cons_of_pos hkeeps, List.filter_cons_of_pos hkeeps,
        List.length_cons, ← hnext]
      simp only [true_and]
      split <;> rfl
    · rw [if_neg hkeeps, rowsFrom_cons_of_neg hkeeps, List.filter_cons_of_neg hkeeps, ih]

/- With an order it keeps every row. -/
theorem collectRows_full (offset limit : ℕ) (items : List β) (passed : List α) :
    collectRows keeps row true offset limit items passed passed.length =
      (passed ++ rowsFrom keeps row items passed.length,
        passed.length + (items.filter keeps).length) := by
  induction items generalizing passed with
  | nil => simp [collectRows, rowsFrom]
  | cons item items ih =>
    rw [collectRows]
    by_cases hkeeps : keeps item = true
    · have hnext := ih (passed ++ [row passed.length item])
      rw [List.length_append, List.length_singleton, List.append_assoc, List.singleton_append,
        Nat.add_assoc, Nat.add_comm 1] at hnext
      rw [if_pos hkeeps, rowsFrom_cons_of_pos hkeeps, List.filter_cons_of_pos hkeeps,
        List.length_cons, ← hnext]
      simp only [Bool.true_eq_false, false_and, if_false]
    · rw [if_neg hkeeps, rowsFrom_cons_of_neg hkeeps, List.filter_cons_of_neg hkeeps, ih]

/-- Both ways to the page give the same slice of the arranged rows, and the same total. -/
theorem listPage_eq (kit : NextRule) (order : Option (SortKey α)) (descending : Bool)
    (offset limit : ℕ) {items : List β} (hfits : items.length ≤ usizeMax) :
    listPage kit keeps row order descending offset limit items =
      let l := arranged order descending (allRows keeps row items)
      ⟨slice l offset limit, l.length, kit.next offset (slice l offset limit).length l.length⟩ := by
  have hperm := (arranged_perm order descending (allRows keeps row items)).length_eq
  have hlen : (allRows keeps row items).length = (items.filter keeps).length :=
    length_rowsFrom items 0
  have hle : (allRows keeps row items).length ≤ items.length := length_allRows_le items
  have hlen' : (arranged order descending (allRows keeps row items)).length ≤ usizeMax := by omega
  cases order with
  | none =>
    have hwalk : collectRows keeps row false offset limit items [] 0 =
        (slice (allRows keeps row items) offset limit, (allRows keeps row items).length) := by
      rw [hlen]
      simpa [slice, allRows] using collectRows_stream offset limit items []
    simp only [listPage, Option.isSome_none, hwalk, sortRows, Bool.false_eq_true, if_false,
      arranged]
  | some key =>
    have hwalk : collectRows keeps row true offset limit items [] 0 =
        (allRows keeps row items, (allRows keeps row items).length) := by
      rw [hlen]
      simpa [allRows] using collectRows_full offset limit items []
    simp only [listPage, Option.isSome_some, hwalk, sortRows, if_true, slice_clamped hlen', ← hperm]

/-! ### Following the pages -/

/-- A client that follows the offsets reads all rows in order, each of them once. Every page is a
slice of the same list and gives the same total. -/
def InPages (order : Option (SortKey α)) (descending : Bool) (limit : ℕ) (rows : List α)
    (read : σ → ℕ → Except ToolError (ListPage α) × σ) (s : σ) : Prop :=
  ∃ l pages, InOrder order descending rows l ∧
    (∀ fuel, l.length < fuel → follow read (nextOf ListPage.nextOffset) fuel s 0 = some pages) ∧
    pages.flatMap (rowsOf ListPage.items) = l ∧
    ∀ page ∈ pages, ∃ answer offset, page = .ok answer ∧ answer.items = slice l offset limit ∧
      answer.total = l.length

theorem listPage_inPages (kit : NextRule) (order : Option (SortKey α)) (descending : Bool)
    {limit : ℕ} {items : List β} (hlimit : 1 ≤ limit) (hfits : items.length ≤ usizeMax)
    {read : σ → ℕ → Except ToolError (ListPage α) × σ} {s : σ}
    (hread : ∀ offset, read s offset =
      (.ok (listPage kit keeps row order descending offset limit items), s)) :
    InPages order descending limit (allRows keeps row items) read s := by
  obtain ⟨l, hl⟩ : ∃ l, l = arranged order descending (allRows keeps row items) := ⟨_, rfl⟩
  have hpages : Pages l limit
      (fun offset => listPage kit keeps row order descending offset limit items) ListPage.items
      ListPage.nextOffset := by
    constructor
    · intro offset
      rw [listPage_eq kit order descending offset limit hfits, hl]
    · intro offset
      rw [listPage_eq kit order descending offset limit hfits, ← hl]
      exact kit.next_slice hlimit l offset
  obtain ⟨pages, hfollow, hrows, hmem⟩ := follow_all hpages.answered hlimit read s hread
  refine ⟨l, pages, hl ▸ arranged_inOrder order descending _, hfollow, hrows, fun page hpage => ?_⟩
  obtain ⟨offset, rfl⟩ := hmem page hpage
  refine ⟨_, offset, rfl, ?_, ?_⟩
  · rw [listPage_eq kit order descending offset limit hfits, hl]
  · rw [listPage_eq kit order descending offset limit hfits, hl]

end IdaHeadless.Listing
