import Mathlib.Data.List.Basic
import Mathlib.Data.List.TakeDrop
import Mathlib.Data.Nat.Notation

/-!
# Occurrences of a pattern with wildcards in a text

A pattern is a list of symbols in which `none` stands for any symbol. The occurrences of a
pattern are the offsets at which it matches wholly inside the text. A text may be read in
pieces that overlap by one symbol less than the pattern is long: the occurrences below the
piece's length are those in the piece, and the others are those in the rest of the text.
-/

namespace IdaHeadless.PatternScan

variable {α : Type*} [DecidableEq α] {pat : List (Option α)} {text : List α} {i n : ℕ}

/-! ### One place -/

/- The pattern matches where the text begins. -/
def matchesHead : List (Option α) → List α → Bool
  | [], _ => true
  | _ :: _, [] => false
  | want :: pat, got :: text => want.all (· = got) && matchesHead pat text

theorem length_le_of_matchesHead (h : matchesHead pat text = true) :
    pat.length ≤ text.length := by
  induction pat generalizing text with
  | nil => simp
  | cons want pat ih =>
    cases text with
    | nil => simp [matchesHead] at h
    | cons got text =>
      simp only [matchesHead, Bool.and_eq_true] at h
      have hrest : pat.length ≤ text.length := ih h.2
      simpa using hrest

theorem matchesHead_iff :
    matchesHead pat text = true ↔
      pat.length ≤ text.length ∧
        ∀ (i : ℕ) (a : α), pat[i]? = some (some a) → text[i]? = some a := by
  induction pat generalizing text with
  | nil => simp [matchesHead]
  | cons want pat ih =>
    cases text with
    | nil => simp [matchesHead]
    | cons got text =>
      rw [matchesHead, Bool.and_eq_true, ih, List.length_cons, List.length_cons]
      constructor
      · rintro ⟨hhead, hlen, hrest⟩
        refine ⟨by omega, ?_⟩
        intro i a hi
        cases i with
        | zero =>
          have hwant : want = some a := by simpa using hi
          rw [hwant] at hhead
          have hgot : a = got := by simpa using hhead
          simp [hgot]
        | succ i => exact hrest i a (by simpa using hi)
      · rintro ⟨hlen, hall⟩
        refine ⟨?_, by omega, fun i a hi => ?_⟩
        · cases want with
          | none => rfl
          | some a =>
            have hgot : got = a := by simpa using hall 0 a rfl
            simp [hgot]
        · have hshift : (got :: text)[i + 1]? = some a := hall (i + 1) a (by simpa using hi)
          simpa using hshift

/- Only as much of the text as the pattern is long decides. -/
theorem matchesHead_take (hn : pat.length ≤ n) :
    matchesHead pat (text.take n) = matchesHead pat text := by
  induction pat generalizing text n with
  | nil => simp [matchesHead]
  | cons want pat ih =>
    cases n with
    | zero => simp at hn
    | succ n =>
      cases text with
      | nil => simp
      | cons got text =>
        have hle : pat.length ≤ n := by simpa using hn
        rw [List.take_succ_cons, matchesHead, matchesHead, ih hle]

/- A comparison symbol by symbol, given as many symbols as the pattern has. -/
theorem zip_all_eq_matchesHead (h : pat.length ≤ text.length) :
    ((pat.zip text).all fun (want, got) => want.all (· = got)) = matchesHead pat text := by
  induction pat generalizing text with
  | nil => simp [matchesHead]
  | cons want pat ih =>
    cases text with
    | nil => simp at h
    | cons got text =>
      have hle : pat.length ≤ text.length := by simpa using h
      rw [List.zip_cons_cons, List.all_cons, ih hle, matchesHead]

/-! ### All places -/

def occurrences (pat : List (Option α)) (text : List α) : List ℕ :=
  (List.range text.length).filter fun i => matchesHead pat (text.drop i)

theorem mem_occurrences :
    i ∈ occurrences pat text ↔ i < text.length ∧ matchesHead pat (text.drop i) = true := by
  simp [occurrences]

theorem add_length_le_of_mem_occurrences (h : i ∈ occurrences pat text) :
    i + pat.length ≤ text.length := by
  have hmem := mem_occurrences.mp h
  have hle := length_le_of_matchesHead hmem.2
  rw [List.length_drop] at hle
  omega

theorem occurrences_eq_nil_of_short (h : text.length < pat.length) :
    occurrences pat text = [] := by
  rw [List.eq_nil_iff_forall_not_mem]
  intro i hi
  have hle := add_length_le_of_mem_occurrences hi
  omega

/- The offsets from `n` on are those in the text without its first `n` symbols. -/
theorem occurrences_split (hn : n ≤ text.length) :
    occurrences pat text =
      ((List.range n).filter fun i => matchesHead pat (text.drop i)) ++
        (occurrences pat (text.drop n)).map (n + ·) := by
  have hlen : text.length = n + (text.drop n).length := by
    rw [List.length_drop]
    omega
  rw [occurrences, hlen, List.range_add, List.filter_append, occurrences, List.filter_map]
  congr 3
  funext i
  simp [List.drop_drop]

/- No window begins where fewer symbols are left than the pattern has. -/
theorem filter_range_windows (h : pat.length ≤ text.length) (hpos : 0 < pat.length) :
    ((List.range (text.length - pat.length + 1)).filter fun i => matchesHead pat (text.drop i)) =
      occurrences pat text := by
  have hn : text.length - pat.length + 1 ≤ text.length := by omega
  rw [occurrences_split hn]
  have hshort : (text.drop (text.length - pat.length + 1)).length < pat.length := by
    rw [List.length_drop]
    omega
  rw [occurrences_eq_nil_of_short hshort, List.map_nil, List.append_nil]

/- The first piece of a text read with the overlap. -/
theorem occurrences_piece (hn : n ≤ text.length) (hpos : 0 < pat.length) :
    occurrences pat (text.take (n + (pat.length - 1))) =
      (List.range n).filter fun i => matchesHead pat (text.drop i) := by
  have hlen : n ≤ (text.take (n + (pat.length - 1))).length := by
    rw [List.length_take]
    omega
  have hshort : ((text.take (n + (pat.length - 1))).drop n).length < pat.length := by
    rw [List.length_drop, List.length_take]
    omega
  rw [occurrences_split hlen, occurrences_eq_nil_of_short hshort, List.map_nil, List.append_nil]
  apply List.filter_congr
  intro i hi
  have hlt : i < n := List.mem_range.mp hi
  rw [List.drop_take]
  exact matchesHead_take (by omega)

/- A text is its first piece and the rest. -/
theorem occurrences_chunk (hn : n ≤ text.length) (hpos : 0 < pat.length) :
    occurrences pat text =
      occurrences pat (text.take (n + (pat.length - 1))) ++
        (occurrences pat (text.drop n)).map (n + ·) := by
  rw [occurrences_piece hn hpos, ← occurrences_split hn]

end IdaHeadless.PatternScan
