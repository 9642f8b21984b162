import IdaHeadless.Paging
import IdaHeadless.ToolError
import Mathlib.Algebra.Group.Nat.Defs
import Mathlib.Data.List.Chain
import Mathlib.Tactic.Common

/-!
# Walking instruction heads (scan.rs)

A scope names address ranges. `InsnHeads` walks the heads of each range in turn and stops when
its budget is used up. The budget is looked at before the rest of the walk, so a walk that ends
with its budget is reported as cut short.
-/

namespace IdaHeadless.Scan

open Paging (saturatingAdd)

/-! ### The database -/

structure Segment where
  startAddress : ℕ
  endAddress : ℕ
  name : List Char
  executable : Bool
  end_lt : endAddress < 2 ^ 64

structure Function where
  startAddress : ℕ
  endAddress : ℕ
  end_lt : endAddress < 2 ^ 64

/-- What the scans read of a database: its segments, which do not overlap, the length of the
instruction at an address, the next head, the rendered line, and the immediates of the operands
with the search for one of them. -/
structure Idb where
  segments : List Segment
  disjoint : segments.Pairwise fun s t =>
    s.endAddress ≤ t.startAddress ∨ t.endAddress ≤ s.startAddress
  segmentByName : List Char → Option Segment
  segmentByName_mem : ∀ name seg, segmentByName name = some seg → seg ∈ segments
  functionAt : ℕ → Option Function
  insnAt : ℕ → Option ℕ
  nextHead : ℕ → Option ℕ
  disasmLine : ℕ → Option (List Char)
  immsAt : ℕ → List ℕ
  findImm : ℕ → UInt32 → Option ℕ
  findImm_eq : ∀ c x a, findImm c x = some a ↔
    (c ≤ a ∧ x.toNat ∈ immsAt a) ∧ ∀ b, c ≤ b → b < a → x.toNat ∉ immsAt b

/-- The segment that contains an address. -/
def containing (segs : List Segment) (addr : ℕ) : Option Segment :=
  segs.find? fun seg => seg.startAddress ≤ addr && addr < seg.endAddress

def Idb.segmentAt (db : Idb) (addr : ℕ) : Option Segment := containing db.segments addr

theorem containing_eq {segs : List Segment} {seg : Segment} {addr : ℕ}
    (hdisjoint : segs.Pairwise fun s t =>
      s.endAddress ≤ t.startAddress ∨ t.endAddress ≤ s.startAddress)
    (hmem : seg ∈ segs) (hstart : seg.startAddress ≤ addr) (hend : addr < seg.endAddress) :
    containing segs addr = some seg := by
  induction segs with
  | nil => cases hmem
  | cons s rest ih =>
    have hcons := List.pairwise_cons.mp hdisjoint
    rw [containing]
    rcases List.mem_cons.mp hmem with rfl | hrest
    · rw [List.find?_cons_of_pos (by simp [hstart, hend])]
    · have hapart := hcons.1 seg hrest
      have hout : ¬ (s.startAddress ≤ addr ∧ addr < s.endAddress) := by omega
      rw [List.find?_cons_of_neg (by simpa using hout)]
      exact ih hcons.2 hrest

/-! ### Scopes -/

inductive ScanScope where
  | database
  | function (addr : UInt64)
  | segment (name : List Char)
  | range (start stop : UInt64)

def ScanScope.ranges (scope : ScanScope) (db : Idb) : Except ToolError (List (ℕ × ℕ)) :=
  match scope with
  | .database => .ok (db.segments.map fun seg => (seg.startAddress, seg.endAddress))
  | .function addr =>
    match db.functionAt addr.toNat with
    | some func => .ok [(func.startAddress, func.endAddress)]
    | none => .error (.functionNotFound addr.toNat)
  | .segment name =>
    match db.segmentByName name with
    | some seg => .ok [(seg.startAddress, seg.endAddress)]
    | none => .error (.invalidParams ("no segment named '" ++ String.ofList name ++ "'"))
  | .range start stop => .ok [(start.toNat, stop.toNat)]

def ScanScope.rangeEndFor (scope : ScanScope) (db : Idb) (addr : ℕ) : Except ToolError ℕ :=
  match scope with
  | .database | .segment _ =>
    match db.segmentAt addr with
    | some seg => .ok seg.endAddress
    | none => .error (.addressOutOfRange addr)
  | .function funcAddr =>
    match db.functionAt funcAddr.toNat with
    | some func => .ok func.endAddress
    | none => .error (.functionNotFound funcAddr.toNat)
  | .range _ stop => .ok stop.toNat

def ScanScope.describe : ScanScope → String
  | .database => "database"
  | .function addr => "function:" ++ hexAddr addr.toNat
  | .segment name => "segment:" ++ String.ofList name
  | .range start stop => "range:" ++ hexAddr start.toNat ++ "-" ++ hexAddr stop.toNat

/- The ranges of a scope are apart, and each ends where `range_end_for` says. -/
theorem ranges_spec {db : Idb} {scope : ScanScope} {ranges : List (ℕ × ℕ)}
    (h : scope.ranges db = .ok ranges) :
    (ranges.Pairwise fun r q => r.2 ≤ q.1 ∨ q.2 ≤ r.1) ∧
      ∀ r ∈ ranges, r.2 < 2 ^ 64 ∧
        ∀ a, r.1 ≤ a → a < r.2 → scope.rangeEndFor db a = .ok r.2 := by
  cases scope with
  | database =>
    cases h
    refine ⟨List.pairwise_map.mpr db.disjoint, fun r hr => ?_⟩
    obtain ⟨seg, hseg, rfl⟩ := List.mem_map.mp hr
    refine ⟨seg.end_lt, fun a hstart hend => ?_⟩
    rw [ScanScope.rangeEndFor, Idb.segmentAt, containing_eq db.disjoint hseg hstart hend]
  | function addr =>
    rw [ScanScope.ranges] at h
    cases hfunc : db.functionAt addr.toNat with
    | none => simp only [hfunc, reduceCtorEq] at h
    | some func =>
      simp only [hfunc, Except.ok.injEq] at h
      subst h
      refine ⟨List.pairwise_singleton _ _, fun r hr => ?_⟩
      cases List.mem_singleton.mp hr
      refine ⟨func.end_lt, fun a _ _ => ?_⟩
      simp only [ScanScope.rangeEndFor, hfunc]
  | segment name =>
    rw [ScanScope.ranges] at h
    cases hname : db.segmentByName name with
    | none => simp only [hname, reduceCtorEq] at h
    | some seg =>
      simp only [hname, Except.ok.injEq] at h
      subst h
      have hseg := db.segmentByName_mem name seg hname
      refine ⟨List.pairwise_singleton _ _, fun r hr => ?_⟩
      cases List.mem_singleton.mp hr
      refine ⟨seg.end_lt, fun a hstart hend => ?_⟩
      rw [ScanScope.rangeEndFor, Idb.segmentAt, containing_eq db.disjoint hseg hstart hend]
  | range start stop =>
    cases h
    refine ⟨List.pairwise_singleton _ _, fun r hr => ?_⟩
    cases List.mem_singleton.mp hr
    exact ⟨stop.toNat_lt, fun a _ _ => rfl⟩

/-! ### The iterator -/

/-- The head after `addr`, whatever it is. -/
def following (db : Idb) (addr : ℕ) : Option ℕ :=
  match db.insnAt addr with
  | some len =>
    if len ≠ 0 then some (saturatingAdd addr len) else (db.nextHead addr).filter (addr < ·)
  | none => (db.nextHead addr).filter (addr < ·)

def step (db : Idb) (addr stop : ℕ) : Option ℕ :=
  (following db addr).filter fun next => addr < next && next < stop

structure InsnHeads where
  ranges : List (ℕ × ℕ)
  current : Option (ℕ × ℕ)
  budget : ℕ
  scanned : ℕ
  exhaustedBudget : Bool

def InsnHeads.new (ranges : List (ℕ × ℕ)) (maxScan : ℕ) : InsnHeads :=
  ⟨ranges, none, maxScan, 0, false⟩

def ScanScope.heads (scope : ScanScope) (db : Idb) (maxScan : ℕ) : Except ToolError InsnHeads := do
  .ok (.new (← scope.ranges db) maxScan)

/-- Ranges without addresses are passed over. -/
def popRange : List (ℕ × ℕ) → Option (ℕ × ℕ) × List (ℕ × ℕ)
  | [] => (none, [])
  | (start, stop) :: rest => if start < stop then (some (start, stop), rest) else popRange rest

/- `Iterator::next`. The loop looks at the budget again for every range it takes, and no range
that it passes over changes the count. -/
def InsnHeads.next (db : Idb) (heads : InsnHeads) : Option ℕ × InsnHeads :=
  if heads.scanned ≥ heads.budget then (none, { heads with exhaustedBudget := true })
  else
    match heads.current with
    | some (addr, stop) =>
      (some addr, { heads with
        current := (step db addr stop).map fun next => (next, stop)
        scanned := heads.scanned + 1 })
    | none =>
      match popRange heads.ranges with
      | (none, rest) => (none, { heads with ranges := rest })
      | (some (addr, stop), rest) =>
        (some addr, { heads with
          ranges := rest
          current := (step db addr stop).map fun next => (next, stop)
          scanned := heads.scanned + 1 })

def InsnHeads.hitScanLimit (heads : InsnHeads) : Bool := heads.exhaustedBudget

/-- The addresses yielded up to the first `None`, and the iterator then. -/
def InsnHeads.drain (db : Idb) : ℕ → InsnHeads → Option (List ℕ × InsnHeads)
  | 0, _ => none
  | fuel + 1, heads =>
    match heads.next db with
    | (none, heads) => some ([], heads)
    | (some addr, heads) => (heads.drain db fuel).map fun p => (addr :: p.1, p.2)

/-! ### The walk without a budget -/

variable {db : Idb} {addr next start stop : ℕ}

theorem step_some (h : step db addr stop = some next) :
    following db addr = some next ∧ addr < next ∧ next < stop := by
  obtain ⟨hnext, hbounds⟩ := Option.filter_eq_some_iff.mp h
  simp only [Bool.and_eq_true, decide_eq_true_eq] at hbounds
  exact ⟨hnext, hbounds⟩

def walkFrom (db : Idb) (stop : ℕ) : ℕ → ℕ → List ℕ
  | 0, _ => []
  | fuel + 1, addr => addr :: (step db addr stop).elim [] (walkFrom db stop fuel)

/-- The heads of a range. Each step goes up, so there are no more than addresses. -/
def walkRange (db : Idb) (start stop : ℕ) : List ℕ := walkFrom db stop (stop - start) start

def walk (db : Idb) (ranges : List (ℕ × ℕ)) : List ℕ := ranges.flatMap fun r => walkRange db r.1 r.2

theorem walkFrom_fuel {fuel fuel' : ℕ} (h : stop - addr ≤ fuel) (h' : stop - addr ≤ fuel')
    (hlt : addr < stop) : walkFrom db stop fuel addr = walkFrom db stop fuel' addr := by
  induction fuel generalizing addr fuel' with
  | zero => omega
  | succ fuel ih =>
    obtain ⟨fuel', rfl⟩ : ∃ k, fuel' = k + 1 := ⟨fuel' - 1, by omega⟩
    rw [walkFrom, walkFrom]
    cases hstep : step db addr stop with
    | none => rfl
    | some next =>
      obtain ⟨-, hup, hin⟩ := step_some hstep
      have htail : walkFrom db stop fuel next = walkFrom db stop fuel' next :=
        ih (by omega) (by omega) hin
      rw [Option.elim_some, Option.elim_some, htail]

theorem walkRange_of_lt (h : start < stop) :
    walkRange db start stop =
      start :: (step db start stop).elim [] fun next => walkRange db next stop := by
  obtain ⟨n, hn⟩ : ∃ n, stop - start = n + 1 := ⟨stop - start - 1, by omega⟩
  rw [walkRange, hn, walkFrom]
  cases hstep : step db start stop with
  | none => rfl
  | some next =>
    obtain ⟨-, hup, hin⟩ := step_some hstep
    rw [Option.elim_some, Option.elim_some, walkRange,
      walkFrom_fuel (by omega) (Nat.le_refl _) hin]

theorem walkRange_of_le (h : stop ≤ start) : walkRange db start stop = [] := by
  rw [walkRange, Nat.sub_eq_zero_of_le h, walkFrom]

/- Inside its range the walk goes up, from one head to the next. -/
theorem walkRange_shape (db : Idb) (start stop : ℕ) :
    (walkRange db start stop).Pairwise (· < ·) ∧
      (∀ a ∈ walkRange db start stop, start ≤ a ∧ a < stop) ∧
      ((walkRange db start stop).IsChain fun a b => step db a stop = some b) ∧
      ∀ a, (walkRange db start stop).getLast? = some a → step db a stop = none := by
  induction hn : stop - start using Nat.strongRecOn generalizing start with
  | ind n ih =>
    by_cases hlt : start < stop
    · rw [walkRange_of_lt hlt]
      cases hstep : step db start stop with
      | none => simp [hlt, hstep]
      | some next =>
        obtain ⟨-, hup, hin⟩ := step_some hstep
        obtain ⟨hsorted, hbounds, hchain, hlast⟩ := ih (stop - next) (by omega) next rfl
        rw [Option.elim_some]
        refine ⟨List.pairwise_cons.mpr ⟨fun a ha => ?_, hsorted⟩, fun a ha => ?_, ?_, ?_⟩
        · have ha' := hbounds a ha
          omega
        · rcases List.mem_cons.mp ha with rfl | ha
          · omega
          · have ha' := hbounds a ha
            omega
        · rw [walkRange_of_lt hin] at hchain ⊢
          exact List.isChain_cons_cons.mpr ⟨hstep, hchain⟩
        · rw [walkRange_of_lt hin] at hlast ⊢
          rw [List.getLast?_cons_cons]
          exact hlast
    · rw [walkRange_of_le (by omega)]
      simp

/-! ### The iterator walks a prefix -/

/-- The heads of a range, each with the end of the range. -/
def withEnd (db : Idb) (r : ℕ × ℕ) : List (ℕ × ℕ) := (walkRange db r.1 r.2).map fun a => (a, r.2)

def walkEnds (db : Idb) (ranges : List (ℕ × ℕ)) : List (ℕ × ℕ) := ranges.flatMap (withEnd db)

/-- The heads that are still to come without a budget. -/
def InsnHeads.pending (db : Idb) (heads : InsnHeads) : List (ℕ × ℕ) :=
  heads.current.elim [] (withEnd db) ++ walkEnds db heads.ranges

theorem map_fst_walkEnds (db : Idb) (ranges : List (ℕ × ℕ)) :
    (walkEnds db ranges).map Prod.fst = walk db ranges := by
  rw [walkEnds, walk, List.map_flatMap]
  congr 1
  funext r
  rw [withEnd, List.map_map]
  exact List.map_id _

theorem length_walkEnds (db : Idb) (ranges : List (ℕ × ℕ)) :
    (walkEnds db ranges).length = (walk db ranges).length := by
  rw [← map_fst_walkEnds, List.length_map]

theorem mem_walkEnds {ranges : List (ℕ × ℕ)} {c : ℕ × ℕ} (h : c ∈ walkEnds db ranges) :
    ∃ r ∈ ranges, r.1 ≤ c.1 ∧ c.1 < r.2 ∧ c.2 = r.2 := by
  obtain ⟨r, hr, hc⟩ := List.mem_flatMap.mp h
  obtain ⟨a, ha, rfl⟩ := List.mem_map.mp hc
  obtain ⟨-, hbounds, -⟩ := walkRange_shape db r.1 r.2
  exact ⟨r, hr, (hbounds a ha).1, (hbounds a ha).2, rfl⟩

/- Ranges that are apart have no head in common. -/
theorem walkEnds_apart {ranges : List (ℕ × ℕ)}
    (h : ranges.Pairwise fun r q => r.2 ≤ q.1 ∨ q.2 ≤ r.1) :
    (walkEnds db ranges).Pairwise fun c d => c.1 ≠ d.1 := by
  induction ranges with
  | nil => exact .nil
  | cons r rest ih =>
    obtain ⟨hhead, htail⟩ := List.pairwise_cons.mp h
    obtain ⟨hsorted, hbounds, -⟩ := walkRange_shape db r.1 r.2
    rw [walkEnds, List.flatMap_cons, List.pairwise_append]
    refine ⟨?_, ih htail, fun c hc d hd => ?_⟩
    · exact List.pairwise_map.mpr (hsorted.imp fun hab => Nat.ne_of_lt hab)
    · obtain ⟨a, ha, rfl⟩ := List.mem_map.mp hc
      obtain ⟨q, hq, hlow, hhigh, -⟩ := mem_walkEnds hd
      have hr := hbounds a ha
      have hapart := hhead q hq
      intro heq
      simp only at heq
      omega

theorem withEnd_of_lt {r : ℕ × ℕ} (h : r.1 < r.2) :
    withEnd db r =
      r :: ((step db r.1 r.2).map fun next => (next, r.2)).elim [] (withEnd db) := by
  rw [withEnd, walkRange_of_lt h, List.map_cons]
  cases step db r.1 r.2 with
  | none => rfl
  | some next => rfl

theorem withEnd_of_le {r : ℕ × ℕ} (h : r.2 ≤ r.1) : withEnd db r = [] := by
  rw [withEnd, walkRange_of_le h, List.map_nil]

/-- The cursor stands inside its range. -/
def InsnHeads.Inside (heads : InsnHeads) : Prop := ∀ c, heads.current = some c → c.1 < c.2

theorem step_inside (c : ℕ × ℕ) (h : ((step db addr stop).map fun next => (next, stop)) = some c) :
    c.1 < c.2 := by
  obtain ⟨next, hstep, rfl⟩ := Option.map_eq_some_iff.mp h
  exact (step_some hstep).2.2

theorem popRange_none (db : Idb) {ranges : List (ℕ × ℕ)} (h : (popRange ranges).1 = none) :
    walkEnds db ranges = [] := by
  induction ranges with
  | nil => rfl
  | cons r rest ih =>
    rw [popRange] at h
    split at h
    · cases h
    · rw [walkEnds, List.flatMap_cons, withEnd_of_le (by omega)]
      exact ih h

theorem popRange_some (db : Idb) {ranges : List (ℕ × ℕ)} {r : ℕ × ℕ}
    (h : (popRange ranges).1 = some r) :
    r.1 < r.2 ∧ walkEnds db ranges = withEnd db r ++ walkEnds db (popRange ranges).2 := by
  induction ranges with
  | nil => cases h
  | cons q rest ih =>
    rw [popRange] at h ⊢
    split at h
    · rename_i hlt
      cases h
      refine ⟨hlt, ?_⟩
      rw [if_pos hlt, walkEnds, List.flatMap_cons]
      rfl
    · rename_i hempty
      obtain ⟨hlt, hwalk⟩ := ih h
      refine ⟨hlt, ?_⟩
      rw [if_neg hempty, walkEnds, List.flatMap_cons, withEnd_of_le (by omega)]
      exact hwalk

/-- What one call of `next` does: it is out of budget, at the end, or at the next address. -/
inductive Next (db : Idb) (heads : InsnHeads) : Option ℕ → InsnHeads → Prop where
  | spent (h : heads.budget ≤ heads.scanned) :
      Next db heads none { heads with exhaustedBudget := true }
  | ended (heads' : InsnHeads) (room : heads.scanned < heads.budget)
      (none : heads.pending db = []) (flag : heads'.exhaustedBudget = heads.exhaustedBudget)
      (scanned : heads'.scanned = heads.scanned) : Next db heads .none heads'
  | yields (addr stop : ℕ) (heads' : InsnHeads) (room : heads.scanned < heads.budget)
      (pending : heads.pending db = (addr, stop) :: heads'.pending db) (inside : heads'.Inside)
      (flag : heads'.exhaustedBudget = heads.exhaustedBudget)
      (budget : heads'.budget = heads.budget) (scanned : heads'.scanned = heads.scanned + 1) :
      Next db heads (some addr) heads'

theorem next_spec (db : Idb) {heads : InsnHeads} (hinside : heads.Inside) :
    Next db heads (heads.next db).1 (heads.next db).2 := by
  rw [InsnHeads.next]
  by_cases hspent : heads.scanned ≥ heads.budget
  · rw [if_pos hspent]
    exact .spent hspent
  · rw [if_neg hspent]
    have hroom : heads.scanned < heads.budget := by omega
    cases hcurrent : heads.current with
    | some c =>
      refine .yields c.1 c.2 _ hroom ?_ (fun d hd => step_inside d hd) rfl rfl rfl
      rw [InsnHeads.pending, InsnHeads.pending, hcurrent, Option.elim_some,
        withEnd_of_lt (hinside c hcurrent), List.cons_append]
    | none =>
      have hpending : heads.pending db = walkEnds db heads.ranges := by
        rw [InsnHeads.pending, hcurrent, Option.elim_none, List.nil_append]
      cases hpop : (popRange heads.ranges).1 with
      | none =>
        have hpair : popRange heads.ranges = (none, (popRange heads.ranges).2) := by rw [← hpop]
        rw [hpair]
        exact .ended _ hroom (hpending.trans (popRange_none db hpop)) rfl rfl
      | some r =>
        have hpair : popRange heads.ranges = (some r, (popRange heads.ranges).2) := by rw [← hpop]
        obtain ⟨hlt, hwalk⟩ := popRange_some db hpop
        rw [hpair]
        refine .yields r.1 r.2 _ hroom ?_ (fun d hd => step_inside d hd) rfl rfl rfl
        rw [hpending, hwalk, withEnd_of_lt hlt, InsnHeads.pending, List.cons_append]

/- A call that finds the budget spent. -/
theorem next_spent (db : Idb) {heads : InsnHeads} (h : heads.budget ≤ heads.scanned) :
    heads.next db = (none, { heads with exhaustedBudget := true }) := by
  rw [InsnHeads.next, if_pos h]

/- The run: as many addresses as the budget allows, and the flag wherever the budget was reached.
The induction is on the budget that is left. -/
theorem drain_spec (db : Idb) (n : ℕ) (heads : InsnHeads) (hinside : heads.Inside)
    (hflag : heads.exhaustedBudget = false) (hn : heads.scanned + n = heads.budget) :
    ∃ heads', (∀ fuel, n < fuel →
        heads.drain db fuel = some (((heads.pending db).take n).map Prod.fst, heads')) ∧
      heads'.exhaustedBudget = decide (n ≤ (heads.pending db).length) := by
  induction n generalizing heads with
  | zero =>
    refine ⟨{ heads with exhaustedBudget := true }, fun fuel hfuel => ?_, ?_⟩
    · obtain ⟨fuel, rfl⟩ : ∃ k, fuel = k + 1 := ⟨fuel - 1, by omega⟩
      rw [InsnHeads.drain, next_spent db (by omega), List.take_zero, List.map_nil]
    · exact (decide_eq_true (Nat.zero_le _)).symm
  | succ n ih =>
    have hnext := next_spec db hinside
    generalize hr : heads.next db = r at hnext
    obtain ⟨out, heads'⟩ := r
    dsimp only at hnext
    cases hnext with
    | spent hspent => omega
    | ended _ room none flag scanned =>
      refine ⟨heads', fun fuel hfuel => ?_, ?_⟩
      · obtain ⟨fuel, rfl⟩ : ∃ k, fuel = k + 1 := ⟨fuel - 1, by omega⟩
        rw [InsnHeads.drain, hr, none, List.take_nil, List.map_nil]
      · rw [flag, hflag, none, List.length_nil]
        exact (decide_eq_false (by omega)).symm
    | yields a stop _ room pending inside flag budget scanned =>
      obtain ⟨last, hdrain, hlast⟩ := ih heads' inside (flag.trans hflag) (by omega)
      refine ⟨last, fun fuel hfuel => ?_, ?_⟩
      · obtain ⟨fuel, rfl⟩ : ∃ k, fuel = k + 1 := ⟨fuel - 1, by omega⟩
        rw [InsnHeads.drain, hr, pending, List.take_succ_cons, List.map_cons]
        simp only [hdrain fuel (by omega), Option.map_some]
      · rw [hlast, pending, List.length_cons]
        exact decide_eq_decide.mpr (by omega)

theorem drain_new (db : Idb) (ranges : List (ℕ × ℕ)) (budget : ℕ) :
    ∃ heads, (∀ fuel, budget < fuel → (InsnHeads.new ranges budget).drain db fuel =
        some ((walk db ranges).take budget, heads)) ∧
      heads.hitScanLimit = decide (budget ≤ (walk db ranges).length) := by
  have hpending : (InsnHeads.new ranges budget).pending db = walkEnds db ranges := rfl
  obtain ⟨heads, hdrain, hflag⟩ := drain_spec db budget (.new ranges budget)
    (fun c hc => by cases hc) rfl (Nat.zero_add _)
  rw [hpending, List.map_take, map_fst_walkEnds] at hdrain
  rw [hpending, length_walkEnds] at hflag
  exact ⟨heads, hdrain, hflag⟩

/-- The flag tells a walk that was cut from one that was not, unless the walk ends with the
budget. -/
theorem insn_heads_iff (db : Idb) (ranges : List (ℕ × ℕ)) (budget : ℕ) :
    (∀ r ∈ ranges, (walkRange db r.1 r.2).Pairwise (· < ·) ∧
      (∀ a ∈ walkRange db r.1 r.2, r.1 ≤ a ∧ a < r.2) ∧
      ((walkRange db r.1 r.2).IsChain fun a b => step db a r.2 = some b) ∧
      (∀ a, (walkRange db r.1 r.2).getLast? = some a → step db a r.2 = none) ∧
      (r.1 < r.2 → (walkRange db r.1 r.2).head? = some r.1)) ∧
    ∃ yielded heads,
      (∀ fuel, budget < fuel →
        (InsnHeads.new ranges budget).drain db fuel = some (yielded, heads)) ∧
      yielded.length ≤ budget ∧ yielded <+: walk db ranges ∧
      ((heads.hitScanLimit = true ↔ yielded ≠ walk db ranges) ↔
        (walk db ranges).length ≠ budget) := by
  constructor
  · intro r _
    obtain ⟨hsorted, hbounds, hchain, hlast⟩ := walkRange_shape db r.1 r.2
    refine ⟨hsorted, hbounds, hchain, hlast, fun hlt => ?_⟩
    rw [walkRange_of_lt hlt, List.head?_cons]
  · obtain ⟨heads, hdrain, hflag⟩ := drain_new db ranges budget
    refine ⟨_, heads, hdrain, ?_, List.take_prefix _ _, ?_⟩
    · rw [List.length_take]
      omega
    · have hwhole : (walk db ranges).take budget = walk db ranges ↔
          (walk db ranges).length ≤ budget := by
        refine ⟨fun h => ?_, List.take_of_length_le⟩
        rw [← h, List.length_take]
        omega
      rw [hflag, decide_eq_true_eq, ne_eq, hwhole]
      omega

/-- A database of instructions of one byte each. -/
def oneByteCode : Idb where
  segments := []
  disjoint := .nil
  segmentByName _ := none
  segmentByName_mem _ _ h := by cases h
  functionAt _ := none
  insnAt _ := some 1
  nextHead _ := none
  disasmLine _ := none
  immsAt _ := []
  findImm _ _ := none
  findImm_eq c x a := by simp

/- Two heads and a budget of two. -/
theorem heads_end_with_budget :
    ∃ heads, (InsnHeads.new [(4096, 4098)] 2).drain oneByteCode 3 = some ([4096, 4097], heads) ∧
      heads.hitScanLimit = true ∧ walk oneByteCode [(4096, 4098)] = [4096, 4097] :=
  ⟨_, rfl, rfl, rfl⟩

end IdaHeadless.Scan
