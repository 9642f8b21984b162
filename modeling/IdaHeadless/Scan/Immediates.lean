import IdaHeadless.Address
import IdaHeadless.FirstRows
import IdaHeadless.Scan.Heads
import IdaHeadless.Traversal
import Mathlib.Data.List.Range
import Mathlib.Data.List.Nodup
import Mathlib.Data.Nat.Find

/-!
# Immediate operands (handlers/search.rs)

The search asks IDA for the next address with an immediate, again and again. IDA takes the
immediate as a 32-bit number, so only the lower half of the wanted value is looked for.
-/

namespace IdaHeadless.Scan

open FirstRows Address Traversal
open Paging (saturatingAdd usizeMax)

/-! ### The search -/

def inExecutableSegment (db : Idb) (addr : ℕ) : Bool := (db.segmentAt addr).any Segment.executable

/-- What the iterator of a range yields from `cursor` on. -/
def immMatchesIn (db : Idb) (imm : UInt32) (stop : ℕ) : ℕ → ℕ → Option (List ℕ)
  | 0, _ => none
  | fuel + 1, cursor =>
    match db.findImm cursor imm with
    | none => some []
    | some found =>
      if found ≥ stop then some []
      else (immMatchesIn db imm stop fuel (saturatingAdd found 1)).map (found :: ·)

structure SearchAnswer where
  matched : List String
  count : ℕ
  scope : String
  codeOnly : Bool

/- `imm as u32` keeps the lower half. The iterators are lazy and have no effects, so what `take`
leaves unread does not matter. -/
def handleSearchImm (fuel : ℕ) (idb : Option Idb) (imm : UInt64) (maxResults : ℕ)
    (scope : ScanScope) (codeOnly : Bool) : Option (Except ToolError SearchAnswer) :=
  match idb with
  | none => some (.error .noDatabaseOpen)
  | some db =>
    match scope.ranges db with
    | .error e => some (.error e)
    | .ok ranges =>
      (ranges.mapM fun r => immMatchesIn db imm.toUInt32 r.2 fuel r.1).map fun hits =>
        let matched := ((hits.flatten.filter fun addr =>
          !codeOnly || inExecutableSegment db addr).take maxResults).map hexAddr
        .ok ⟨matched, matched.length, scope.describe, codeOnly⟩

/-! ### The addresses of a range -/

variable {db : Idb} {imm : UInt32} {cursor stop : ℕ}

def hasImm (db : Idb) (value addr : ℕ) : Bool := value ∈ db.immsAt addr

/- Where IDA finds nothing there is nothing. -/
theorem findImm_none (h : db.findImm cursor imm = none) {a : ℕ} (ha : cursor ≤ a) :
    hasImm db imm.toNat a = false := by
  rw [hasImm, decide_eq_false_iff_not]
  intro hmem
  have hex : ∃ b, cursor ≤ b ∧ imm.toNat ∈ db.immsAt b := ⟨a, ha, hmem⟩
  have hfind := (db.findImm_eq cursor imm (Nat.find hex)).mpr
    ⟨Nat.find_spec hex, fun b hb hlt hb' => Nat.find_min hex hlt ⟨hb, hb'⟩⟩
  rw [h] at hfind
  cases hfind

/- The induction is on the addresses that are left. -/
theorem immMatchesIn_eq (hstop : stop < 2 ^ 64) (cursor fuel : ℕ)
    (hfuel : stop - cursor < fuel) :
    immMatchesIn db imm stop fuel cursor =
      some ((List.range' cursor (stop - cursor)).filter (hasImm db imm.toNat)) := by
  induction hn : stop - cursor using Nat.strongRecOn generalizing cursor fuel with
  | ind n ih =>
    obtain ⟨fuel, rfl⟩ : ∃ k, fuel = k + 1 := ⟨fuel - 1, by omega⟩
    rw [immMatchesIn]
    cases hfind : db.findImm cursor imm with
    | none =>
      have hnone : (List.range' cursor n).filter (hasImm db imm.toNat) = [] := by
        rw [List.filter_eq_nil_iff]
        intro a ha
        rw [findImm_none hfind (List.mem_range'_1.mp ha).1]
        exact Bool.false_ne_true
      rw [hnone]
    | some found =>
      obtain ⟨⟨hfrom, hhit⟩, hleast⟩ := (db.findImm_eq cursor imm found).mp hfind
      have hbefore : ∀ k ≤ found - cursor,
          (List.range' cursor k).filter (hasImm db imm.toNat) = [] := by
        intro k hk
        rw [List.filter_eq_nil_iff]
        intro a ha
        have hrange := List.mem_range'_1.mp ha
        have hno := hleast a hrange.1 (by omega)
        simpa [hasImm] using hno
      by_cases hout : found ≥ stop
      · simp only [hout, if_true]
        rw [hbefore n (by omega)]
      · have hsplit : List.range' cursor n =
            List.range' cursor (found - cursor) ++
              found :: List.range' (found + 1) (stop - (found + 1)) := by
          have happend : List.range' cursor (found - cursor) ++
              List.range' (cursor + (found - cursor)) (stop - found) =
                List.range' cursor (found - cursor + (stop - found)) := List.range'_append_1
          have hcons : List.range' found (stop - (found + 1) + 1) =
              found :: List.range' (found + 1) (stop - (found + 1)) := List.range'_succ
          rw [show stop - (found + 1) + 1 = stop - found by omega] at hcons
          rw [show cursor + (found - cursor) = found by omega, hcons,
            show found - cursor + (stop - found) = n by omega] at happend
          exact happend.symm
        have hnext : saturatingAdd found 1 = found + 1 := by
          simp only [saturatingAdd, usizeMax]
          omega
        have htail := ih (stop - (found + 1)) (by omega) (found + 1) fuel (by omega) rfl
        have hfound : hasImm db imm.toNat found = true := by simpa [hasImm] using hhit
        simp only [hout, if_false, hnext, htail, Option.map_some]
        rw [hsplit, List.filter_append, hbefore _ (Nat.le_refl _), List.nil_append,
          List.filter_cons_of_pos hfound]

/-! ### The addresses of the scope -/

/-- The addresses of the scope that may be shown, in the order of its ranges. -/
def inScope (db : Idb) (ranges : List (ℕ × ℕ)) (codeOnly : Bool) : List ℕ :=
  (ranges.flatMap fun r => List.range' r.1 (r.2 - r.1)).filter fun addr =>
    !codeOnly || inExecutableSegment db addr

variable {ranges : List (ℕ × ℕ)}

theorem inScope_nodup (h : ranges.Pairwise fun r q => r.2 ≤ q.1 ∨ q.2 ≤ r.1) (codeOnly : Bool) :
    (inScope db ranges codeOnly).Nodup := by
  refine List.Nodup.filter _ (List.nodup_flatMap.mpr ⟨fun r _ => List.nodup_range', ?_⟩)
  refine h.imp fun {r q} hapart => ?_
  intro a hr hq
  have hr := List.mem_range'_1.mp hr
  have hq := List.mem_range'_1.mp hq
  omega

/-- The first addresses of the scope that have the immediate. -/
def firstWith (db : Idb) (ranges : List (ℕ × ℕ)) (codeOnly : Bool) (value maxResults : ℕ) :
    List String :=
  (((inScope db ranges codeOnly).filter (hasImm db value)).take maxResults).map hexAddr

/- The search shows the first addresses that have the lower half of the value. -/
theorem handleSearchImm_eq {scope : ScanScope} (hranges : scope.ranges db = .ok ranges)
    (value : UInt64) (maxResults : ℕ) (codeOnly : Bool) {fuel : ℕ} (hfuel : 2 ^ 64 ≤ fuel) :
    handleSearchImm fuel (some db) value maxResults scope codeOnly =
      let matched := firstWith db ranges codeOnly (value.toNat % 2 ^ 32) maxResults
      some (.ok ⟨matched, matched.length, scope.describe, codeOnly⟩) := by
  have hhits : (ranges.mapM fun r => immMatchesIn db value.toUInt32 r.2 fuel r.1) =
      some (ranges.map fun r =>
        (List.range' r.1 (r.2 - r.1)).filter (hasImm db value.toUInt32.toNat)) := by
    refine mapM_eq_pure fun r hr => ?_
    have hend := ((ranges_spec hranges).2 r hr).1
    exact immMatchesIn_eq hend r.1 fuel (by omega)
  have hfirst : firstWith db ranges codeOnly (value.toNat % 2 ^ 32) maxResults =
      (((ranges.map fun r => (List.range' r.1 (r.2 - r.1)).filter
          (hasImm db value.toUInt32.toNat)).flatten.filter fun addr =>
        !codeOnly || inExecutableSegment db addr).take maxResults).map hexAddr := by
    rw [firstWith, inScope, List.filter_comm, List.filter_flatMap, List.flatMap_def,
      UInt64.toNat_toUInt32]
  rw [handleSearchImm]
  simp only [hranges, hhits, Option.map_some, hfirst]

/-! ### When the search is exact -/

/-- The search for an immediate is exact unless, before its limit is reached, an instruction has the
low half of the value without the value, or the value without its low half. -/
theorem search_imm_iff (db : Idb) (value : UInt64) (maxResults : ℕ) (scope : ScanScope)
    (codeOnly : Bool) (ranges : List (ℕ × ℕ)) (hranges : scope.ranges db = .ok ranges) :
    (inScope db ranges codeOnly).Nodup ∧
      ∃ answer, (∀ fuel ≥ 2 ^ 64,
          handleSearchImm fuel (some db) value maxResults scope codeOnly = some (.ok answer)) ∧
        (answer.matched = (((inScope db ranges codeOnly).filter
            (hasImm db value.toNat)).take maxResults).map hexAddr ↔
          ∀ before addr after, inScope db ranges codeOnly = before ++ addr :: after →
            (before.filter (hasImm db value.toNat)).length < maxResults →
              (hasImm db value.toNat addr ↔ hasImm db (value.toNat % 2 ^ 32) addr)) := by
  have hnodup : (inScope db ranges codeOnly).Nodup :=
    inScope_nodup (ranges_spec hranges).1 codeOnly
  have hinj : Function.Injective hexAddr := fun _ _ h => hexAddr_injective h
  refine ⟨hnodup, _,
    fun fuel hfuel => handleSearchImm_eq hranges value maxResults codeOnly hfuel, ?_⟩
  rw [firstWith, (List.map_injective_iff.mpr hinj).eq_iff]
  exact take_filter_eq_iff hnodup maxResults

/-- An instruction at `0x1000` with the immediate 5. -/
def pushFive : Idb where
  segments := []
  disjoint := oneByteCode.disjoint
  segmentByName _ := none
  segmentByName_mem := oneByteCode.segmentByName_mem
  functionAt _ := none
  insnAt _ := some 2
  nextHead _ := none
  disasmLine _ := none
  immsAt addr := if addr = 4096 then [5] else []
  findImm c x := if c ≤ 4096 ∧ x.toNat = 5 then some 4096 else none
  findImm_eq c x a := by grind

theorem search_imm_five :
    pushFive.immsAt 4096 = [5] ∧
      ∃ answer, (∀ fuel ≥ 2 ^ 64, handleSearchImm fuel (some pushFive) 5 10
          (.range 4096 4098) false = some (.ok answer)) ∧
        answer.matched = (((inScope pushFive [(4096, 4098)] false).filter
          (hasImm pushFive 5)).take 10).map hexAddr := by
  obtain ⟨-, answer, hanswer, hiff⟩ :=
    search_imm_iff pushFive 5 10 (.range 4096 4098) false [(4096, 4098)] rfl
  refine ⟨rfl, answer, hanswer, hiff.mpr ?_⟩
  intro before addr after _ _
  exact Iff.rfl

/- The lower half of `0x100000005` is 5. -/
theorem search_imm_lower_half :
    ∃ answer, handleSearchImm 3 (some pushFive) 4294967301 10 (.range 4096 4098) false =
        some (.ok answer) ∧
      answer.matched = ["0x1000"] ∧ pushFive.immsAt 4096 = [5] ∧
      (((inScope pushFive [(4096, 4098)] false).filter
        (hasImm pushFive 4294967301)).take 10).map hexAddr = [] :=
  ⟨_, rfl, by decide +kernel, rfl, by decide +kernel⟩

end IdaHeadless.Scan
