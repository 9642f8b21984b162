import Mathlib.Algebra.Group.Nat.Defs
import Mathlib.Data.List.Basic
import Mathlib.Data.Nat.Notation
import Mathlib.Tactic.Common

/-!
# Lists read in pages

A page is a slice of a list, and names the offset of the next page as long as the list goes on
behind it. A client that follows these offsets reads the whole list, each row once, and comes
to an end.
-/

namespace IdaHeadless.Paging

variable {α P σ : Type*} {l : List α} {offset limit a b : ℕ}

/-! ### Machine numbers -/

/-- The largest `usize` and `u64`. -/
def usizeMax : ℕ := 2 ^ 64 - 1

/- `saturating_add` of both. -/
def saturatingAdd (a b : ℕ) : ℕ := min (a + b) usizeMax

theorem saturatingAdd_of_le (h : a + b ≤ usizeMax) : saturatingAdd a b = a + b :=
  Nat.min_eq_left h

/- A bound that a `usize` meets does not feel the saturation. -/
theorem min_saturatingAdd {n : ℕ} (hn : n ≤ usizeMax) :
    min (saturatingAdd a b) n = min (a + b) n := by
  simp only [saturatingAdd]
  omega

/-! ### Slices -/

/-- At most `limit` rows, from `offset` on. -/
def slice (l : List α) (offset limit : ℕ) : List α := (l.drop offset).take limit

theorem length_slice (l : List α) (offset limit : ℕ) :
    (slice l offset limit).length = min limit (l.length - offset) := by
  rw [slice, List.length_take, List.length_drop]

theorem slice_append_drop (l : List α) (offset limit : ℕ) :
    slice l offset limit ++ l.drop (offset + limit) = l.drop offset := by
  rw [slice, ← List.drop_drop, List.take_append_drop]

theorem slice_of_le (h : l.length ≤ offset + limit) : slice l offset limit = l.drop offset := by
  rw [slice, List.take_of_length_le]
  rw [List.length_drop]
  omega

/- Where the list goes on behind a page, the page is full. -/
theorem length_slice_of_lt (h : offset + limit < l.length) :
    (slice l offset limit).length = limit := by
  rw [length_slice]
  omega

/- A slice of a list that is cut off behind it. -/
theorem slice_take {k : ℕ} (l : List α) (hk : min (offset + limit) l.length ≤ k) :
    slice (l.take k) offset limit = slice l offset limit := by
  rw [slice, slice, List.drop_take, List.take_take]
  apply List.ext_getElem?
  intro i
  simp only [List.getElem?_take, List.getElem?_drop]
  by_cases hi : offset + i < l.length
  · have hiff : i < min limit (k - offset) ↔ i < limit := by omega
    rw [if_congr hiff rfl rfl]
  · rw [List.getElem?_eq_none (by omega), ite_self, ite_self]

/- `offset.min(len)` and `start.saturating_add(limit).min(len)` delimit the slice. -/
theorem slice_clamped (hl : l.length ≤ usizeMax) (offset limit : ℕ) :
    slice l (min offset l.length)
      (min (saturatingAdd (min offset l.length) limit) l.length - min offset l.length) =
    slice l offset limit := by
  rw [min_saturatingAdd hl]
  rcases Nat.le_total l.length offset with h | h
  · rw [Nat.min_eq_right h, slice, slice, List.drop_length, List.drop_of_length_le h,
      List.take_nil, List.take_nil]
  · rw [Nat.min_eq_left h]
    rcases Nat.le_total (offset + limit) l.length with hend | hend
    · rw [Nat.min_eq_left hend, Nat.add_sub_cancel_left]
    · rw [Nat.min_eq_right hend, slice_of_le hend, slice_of_le (by omega)]

/-! ### Following the next offsets -/

/-- The pages read from `offset` on by a client that follows the offset each page names; `read`
may change the state of the reader. -/
def follow (read : σ → ℕ → P × σ) (next : P → Option ℕ) : ℕ → σ → ℕ → Option (List P)
  | 0, _, _ => none
  | fuel + 1, s, offset =>
    match next (read s offset).1 with
    | none => some [(read s offset).1]
    | some offset' => (follow read next fuel (read s offset).2 offset').map ((read s offset).1 :: ·)

/-- The pages of `l` are its slices, each with the offset behind it while there is more. -/
structure Pages (l : List α) (limit : ℕ) (page : ℕ → P) (rows : P → List α)
    (next : P → Option ℕ) : Prop where
  rows_eq : ∀ offset, rows (page offset) = slice l offset limit
  next_eq : ∀ offset,
    next (page offset) = if offset + limit < l.length then some (offset + limit) else none

/-- A rule for the next offset: from the offset of a page, the number of its rows and that of all
rows. A page without rows names none. -/
structure NextRule where
  next : ℕ → ℕ → ℕ → Option ℕ
  next_eq : ∀ offset returned total, next offset returned total =
    if 0 < returned ∧ offset + returned < total then some (offset + returned) else none

def NextRule.plain : NextRule :=
  ⟨fun offset returned total =>
    if 0 < returned ∧ offset + returned < total then some (offset + returned) else none,
    fun _ _ _ => rfl⟩

theorem NextRule.next_slice (rule : NextRule) (hlimit : 1 ≤ limit) (l : List α) (offset : ℕ) :
    rule.next offset (slice l offset limit).length l.length =
      if offset + limit < l.length then some (offset + limit) else none := by
  rw [rule.next_eq, length_slice]
  by_cases hmore : offset + limit < l.length
  · have hfull : min limit (l.length - offset) = limit := by omega
    rw [hfull, if_pos ⟨hlimit, hmore⟩, if_pos hmore]
  · have hend : ¬ (0 < min limit (l.length - offset) ∧
        offset + min limit (l.length - offset) < l.length) := by omega
    rw [if_neg hend, if_neg hmore]

variable {page : ℕ → P} {rows : P → List α} {next : P → Option ℕ}

/-- An answer that is an error has no rows and names no offset. -/
def rowsOf {ε : Type*} (rows : P → List α) : Except ε P → List α
  | .ok p => rows p
  | .error _ => []

def nextOf {ε : Type*} (next : P → Option ℕ) : Except ε P → Option ℕ
  | .ok p => next p
  | .error _ => none

theorem Pages.answered {ε : Type*} (h : Pages l limit page rows next) :
    Pages l limit (fun offset => (.ok (page offset) : Except ε P)) (rowsOf rows) (nextOf next) :=
  ⟨h.rows_eq, h.next_eq⟩

theorem Pages.map {β : Type*} (h : Pages l limit page rows next) (f : α → β) :
    Pages (l.map f) limit page (fun p => (rows p).map f) next := by
  constructor
  · intro offset
    rw [h.rows_eq, slice, slice, List.map_take, List.map_drop]
  · intro offset
    rw [h.next_eq, List.length_map]

/- The induction is on the number of pages that are still to come. -/
theorem follow_from (h : Pages l limit page rows next) (hlimit : 1 ≤ limit)
    (read : σ → ℕ → P × σ) (s : σ) (hread : ∀ offset, read s offset = (page offset, s))
    (offset : ℕ) :
    ∃ ps, (∀ fuel, l.length - offset < fuel → follow read next fuel s offset = some ps) ∧
      ps.flatMap rows = l.drop offset ∧ ∀ p ∈ ps, ∃ o, p = page o := by
  induction hn : l.length - offset using Nat.strongRecOn generalizing offset with
  | ind n ih =>
    by_cases hmore : offset + limit < l.length
    · obtain ⟨ps, hfollow, hrows, hpages⟩ :=
        ih (l.length - (offset + limit)) (by omega) (offset + limit) rfl
      refine ⟨page offset :: ps, ?_, ?_, ?_⟩
      · intro fuel hfuel
        obtain ⟨fuel, rfl⟩ : ∃ k, fuel = k + 1 := ⟨fuel - 1, by omega⟩
        have htail := hfollow fuel (by omega)
        simp only [follow, hread, h.next_eq, if_pos hmore, htail, Option.map_some]
      · rw [List.flatMap_cons, hrows, h.rows_eq, slice_append_drop]
      · intro p hp
        rcases List.mem_cons.mp hp with rfl | hp
        · exact ⟨offset, rfl⟩
        · exact hpages p hp
    · refine ⟨[page offset], ?_, ?_, ?_⟩
      · intro fuel hfuel
        obtain ⟨fuel, rfl⟩ : ∃ k, fuel = k + 1 := ⟨fuel - 1, by omega⟩
        simp only [follow, hread, h.next_eq, if_neg hmore]
      · rw [List.flatMap_singleton, h.rows_eq, slice_of_le (by omega)]
      · intro p hp
        exact ⟨offset, List.mem_singleton.mp hp⟩

/-- Following the offsets from the start reads the list. -/
theorem follow_all (h : Pages l limit page rows next) (hlimit : 1 ≤ limit)
    (read : σ → ℕ → P × σ) (s : σ) (hread : ∀ offset, read s offset = (page offset, s)) :
    ∃ ps, (∀ fuel, l.length < fuel → follow read next fuel s 0 = some ps) ∧
      ps.flatMap rows = l ∧ ∀ p ∈ ps, ∃ o, p = page o := by
  obtain ⟨ps, hfollow, hrows, hpages⟩ := follow_from h hlimit read s hread 0
  exact ⟨ps, fun fuel hfuel => hfollow fuel (by omega), by rw [hrows, List.drop_zero], hpages⟩

/- A first page that brings the reader into a state it stays in. -/
theorem follow_settled {read : σ → ℕ → P × σ} {s s' : σ} (hfirst : read s 0 = read s' 0)
    (fuel : ℕ) : follow read next fuel s 0 = follow read next fuel s' 0 := by
  cases fuel with
  | zero => rfl
  | succ fuel => simp only [follow, hfirst]

end IdaHeadless.Paging
