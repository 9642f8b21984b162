import IdaHeadless.Composite.Component

/-!
# What the members of a component share (server/tools/composite.rs)

The globals of a function are the same whether each target is classified anew or once for the
whole component. A global or a string is in the answer exactly if two members with different names
use it, and with it stand the names of all members that do.
-/

namespace IdaHeadless.Composite

open Address Xrefs Grouping Unseen

variable {worker : Worker} {index : Option StringIndex} {st st' st'' : SiteWalk} {target : ℕ}
  {targets targets' : List ℕ} {cut cut' : Bool}

/-! ### Classes that are remembered -/

def Remembers (worker : Worker) (globalClass : List (ℕ × Bool)) : Prop :=
  ∀ a known, globalClass.lookup a = some known → known = classify worker a

/-- The targets were visited one after the other. -/
structure Visits (worker : Worker) (targets : List ℕ) (cut : Bool) (st st' : SiteWalk) : Prop where
  globals : st'.globals = st.globals ∪ (targets.filter (classify worker)).toFinset
  remembers : Remembers worker st'.globalClass
  truncated : st'.truncated = (st.truncated || cut)

theorem Visits.none (h : Remembers worker st.globalClass) : Visits worker [] false st st :=
  ⟨(Finset.union_empty _).symm, h, (Bool.or_false _).symm⟩

theorem Visits.trans (h : Visits worker targets cut st st')
    (h' : Visits worker targets' cut' st' st'') :
    Visits worker (targets ++ targets') (cut || cut') st st'' where
  globals := by
    rw [h'.globals, h.globals, List.filter_append, List.toFinset_append, Finset.union_assoc]
  remembers := h'.remembers
  truncated := by rw [h'.truncated, h.truncated, Bool.or_assoc]

theorem Remembers.cons {globalClass : List (ℕ × Bool)} (h : Remembers worker globalClass)
    (target : ℕ) : Remembers worker ((target, classify worker target) :: globalClass) := by
  intro a known hlookup
  rw [List.lookup_cons] at hlookup
  split at hlookup
  · rename_i heq
    cases hlookup
    rw [beq_iff_eq.mp heq]
  · exact h a known hlookup

theorem filter_target (worker : Worker) (target : ℕ) :
    (([target].filter (classify worker)).toFinset : Finset ℕ) =
      if classify worker target then {target} else ∅ := by
  rw [List.filter_singleton]
  cases classify worker target with
  | true => rfl
  | false => rfl

theorem visitTarget_visits (h : Remembers worker st.globalClass) (target : ℕ) :
    Visits worker [target] false st (visitTarget worker st target) := by
  refine ⟨?_, ?_, ?_⟩
  · rw [filter_target, visitTarget]
    cases hknown : st.globalClass.lookup target with
    | some known =>
      rw [← h target known hknown]
      cases known with
      | true => exact (Finset.insert_eq _ _).trans (Finset.union_comm _ _)
      | false => exact (Finset.union_empty _).symm
    | none =>
      cases classify worker target with
      | true => exact (Finset.insert_eq _ _).trans (Finset.union_comm _ _)
      | false => exact (Finset.union_empty _).symm
  · rw [visitTarget]
    cases hknown : st.globalClass.lookup target with
    | some known =>
      cases known with
      | true => exact h
      | false => exact h
    | none =>
      dsimp only
      split
      · exact h.cons target
      · exact h.cons target
  · rw [visitTarget, Bool.or_false]
    cases st.globalClass.lookup target with
    | some known =>
      cases known with
      | true => rfl
      | false => rfl
    | none =>
      dsimp only
      split
      · rfl
      · rfl

def dataTarget (xref : XRefInfo) : Option ℕ :=
  if xref.isCode then none else (parseAddress xref.target.toList).toOption

theorem visitXref_eq (worker : Worker) (st : SiteWalk) (xref : XRefInfo) :
    visitXref worker st xref = (dataTarget xref).elim st (visitTarget worker st) := by
  rw [visitXref, dataTarget]
  split
  · rfl
  · cases parseAddress xref.target.toList with
    | ok target => rfl
    | error e => rfl

theorem foldl_visitXref (st : SiteWalk) (h : Remembers worker st.globalClass)
    (xrefs : List XRefInfo) :
    Visits worker (xrefs.filterMap dataTarget) false st (xrefs.foldl (visitXref worker) st) := by
  induction xrefs generalizing st with
  | nil => exact Visits.none h
  | cons xref xrefs ih =>
    rw [List.foldl_cons, visitXref_eq]
    cases htarget : dataTarget xref with
    | none =>
      rw [List.filterMap_cons_none htarget]
      exact ih st h
    | some target =>
      rw [List.filterMap_cons_some htarget]
      have hfirst := visitTarget_visits h target
      exact hfirst.trans (ih _ hfirst.remembers)

/-! ### The sites of a function -/

/-- The page that the component reads at a site. -/
def sitePage (worker : Worker) (site : ℕ) : Option XRefListResult :=
  (worker.xrefsFrom site (.paged 0 maxComponentDataXrefs)).toOption

def targetsAt (worker : Worker) (site : ℕ) : List ℕ :=
  (sitePage worker site).elim [] fun page => page.xrefs.filterMap dataTarget

def cutAt (worker : Worker) (site : ℕ) : Bool :=
  (sitePage worker site).any XRefListResult.truncated

theorem visitSite_visits (h : Remembers worker st.globalClass) (site : ℕ) :
    Visits worker (targetsAt worker site) (cutAt worker site) st (visitSite worker st site) := by
  rw [targetsAt, cutAt, sitePage, visitSite]
  cases worker.xrefsFrom site (.paged 0 maxComponentDataXrefs) with
  | error e => exact Visits.none h
  | ok page =>
    have hwalk :=
      foldl_visitXref { st with truncated := st.truncated || page.truncated } h page.xrefs
    refine ⟨hwalk.globals, hwalk.remembers, hwalk.truncated.trans ?_⟩
    exact Bool.or_false _

theorem foldl_visitSite (st : SiteWalk) (h : Remembers worker st.globalClass) (sites : List ℕ) :
    Visits worker (sites.flatMap (targetsAt worker)) (sites.any (cutAt worker)) st
      (sites.foldl (visitSite worker) st) := by
  induction sites generalizing st with
  | nil => exact Visits.none h
  | cons site sites ih =>
    have hfirst := visitSite_visits h site
    rw [List.foldl_cons, List.flatMap_cons, List.any_cons]
    exact hfirst.trans (ih _ hfirst.remembers)

/-! ### The functions, each by itself -/

def blocksOf (worker : Worker) (start : ℕ) : List BasicBlockInfo :=
  (worker.basicBlocks start).toOption.getD []

def sitesOf (worker : Worker) (start : ℕ) : List ℕ := xrefSites start (blocksOf worker start)

/-- The targets that the worker calls no part of a function, asked about each time anew. -/
def globalsOf (worker : Worker) (start : ℕ) : Finset ℕ :=
  (((sitesOf worker start).flatMap (targetsAt worker)).filter (classify worker)).toFinset

def plainFn (worker : Worker) (index : Option StringIndex) (r : Resolved) : ComponentFn where
  start := r.start
  name := r.range.name
  size := r.range.size
  callees := (worker.callees r.start).toOption.getD []
  callers := (worker.callers r.start).toOption.getD []
  blocks := blocksOf worker r.start
  allStrings := stringsOf index r.start r.stop
  globals := globalsOf worker r.start

theorem analyzeOne_spec (index : Option StringIndex) {g : Gathered}
    (h : Remembers worker g.globalClass) (r : Resolved) :
    (analyzeOne worker index g r).analyzed = g.analyzed ++ [plainFn worker index r] ∧
      (analyzeOne worker index g r).dataXrefsTruncated =
        (g.dataXrefsTruncated || (sitesOf worker r.start).any (cutAt worker)) ∧
      Remembers worker (analyzeOne worker index g r).globalClass := by
  have hwalk := foldl_visitSite ⟨∅, g.globalClass, g.dataXrefsTruncated⟩ h
    (sitesOf worker r.start)
  have hglobals := hwalk.globals.trans (Finset.empty_union _)
  refine ⟨?_, hwalk.truncated, hwalk.remembers⟩
  rw [plainFn, globalsOf, ← hglobals]
  rfl

/- Remembering makes no difference. -/
theorem foldl_analyzeOne {g : Gathered} (h : Remembers worker g.globalClass)
    (members : List Resolved) :
    (members.foldl (analyzeOne worker index) g).analyzed =
        g.analyzed ++ members.map (plainFn worker index) ∧
      (members.foldl (analyzeOne worker index) g).dataXrefsTruncated =
        (g.dataXrefsTruncated ||
          members.any fun r => (sitesOf worker r.start).any (cutAt worker)) := by
  induction members generalizing g with
  | nil => exact ⟨(List.append_nil _).symm, (Bool.or_false _).symm⟩
  | cons r members ih =>
    obtain ⟨hanalyzed, htruncated, hremembers⟩ := analyzeOne_spec index h r
    obtain ⟨hrest, hcut⟩ := ih hremembers
    rw [List.foldl_cons, hrest, hcut, hanalyzed, htruncated, List.map_cons, List.any_cons,
      List.append_assoc, List.singleton_append, Bool.or_assoc]
    exact ⟨rfl, rfl⟩

theorem gathered_eq (worker : Worker) (index : Option StringIndex) (members : List Resolved) :
    (members.foldl (analyzeOne worker index) ⟨[], false, []⟩).analyzed =
        members.map (plainFn worker index) ∧
      (members.foldl (analyzeOne worker index) ⟨[], false, []⟩).dataXrefsTruncated =
        members.any fun r => (sitesOf worker r.start).any (cutAt worker) :=
  foldl_analyzeOne (g := ⟨[], false, []⟩) nofun members

/-! ### What is shared -/

section Shared

variable {κ : Type} [LinearOrder κ]

/-- The names of the functions that use a key. -/
def namesUsing (members : List Resolved) (keys : Resolved → Finset κ) (key : κ) : Finset Text :=
  ((members.filter fun r => key ∈ keys r).map fun r => r.range.name).toFinset

theorem shared_spec {uses : List (κ × Text)} {names : κ → Finset Text}
    (hnames : ∀ key name, name ∈ names key ↔ (key, name) ∈ uses) :
    ∃ keys : List κ, keys.Pairwise (· < ·) ∧ (∀ key, key ∈ keys ↔ 2 ≤ (names key).card) ∧
      shared uses = keys.map fun key => (key, names key) := by
  have hvalues : ∀ key, (valuesAt key uses).toFinset = names key := by
    intro key
    ext name
    rw [hnames, List.mem_toFinset, valuesAt]
    simp
  have hmem : ∀ key s, (key, s) ∈ shared uses ↔ s = names key ∧ 2 ≤ s.card := by
    intro key s
    rw [shared, List.mem_filter, mem_groupBy_insert, hvalues, decide_eq_true_iff]
    constructor
    · exact fun h => ⟨h.1.1, h.2⟩
    · exact fun h => ⟨⟨h.1, Finset.card_pos.mp (lt_of_lt_of_le Nat.two_pos h.2)⟩, h.2⟩
  refine ⟨(shared uses).map Prod.fst, ?_, fun key => ?_, ?_⟩
  · exact (groupBy_ascending insertValue uses).sublist (List.filter_sublist.map _)
  · rw [List.mem_map]
    constructor
    · rintro ⟨⟨key, s⟩, he, rfl⟩
      obtain ⟨rfl, hcard⟩ := (hmem key s).mp he
      exact hcard
    · exact fun hcard => ⟨(key, names key), (hmem key _).mpr ⟨rfl, hcard⟩, rfl⟩
  · have hsame : (shared uses).map ((fun key => (key, names key)) ∘ Prod.fst) =
        (shared uses).map id := by
      refine List.map_congr_left fun e he => ?_
      rw [Function.comp_apply, ← ((hmem e.1 e.2).mp he).1]
      rfl
    rw [List.map_map, hsame, List.map_id]

end Shared

/-! ### The strings of a summary -/

/- What was seen is in `out`. -/
theorem compact_eq {limit : ℕ} (values out : List Text) (hout : out.length < limit) :
    compactComponentStrings limit values out =
      out ++ ((values.filter (· ≠ [])).removeAll out).eraseDups.take (limit - out.length) := by
  induction values generalizing out with
  | nil => simp [compactComponentStrings, List.removeAll]
  | cons value rest ih =>
    rw [compactComponentStrings]
    by_cases hempty : value = []
    · rw [if_pos (.inl hempty), ih out hout, List.filter_cons_of_neg (by simp [hempty])]
    · rw [List.filter_cons_of_pos (by simp [hempty])]
      by_cases hseen : value ∈ out
      · rw [if_pos (.inr (List.contains_iff_mem.mpr hseen)), ih out hout, List.cons_removeAll,
          if_neg (by simp [hseen])]
      · obtain ⟨room, hroom⟩ : ∃ room, limit - out.length = room + 1 :=
          ⟨limit - out.length - 1, by omega⟩
        have hfresh : out.contains value = false := by simpa using hseen
        rw [if_neg (not_or.mpr ⟨hempty, by simpa using hseen⟩), List.cons_removeAll, if_pos hfresh,
          List.eraseDups_cons, ← removeAll_push, hroom, List.take_succ_cons]
        split
        · rename_i hfull
          rw [List.length_append, List.length_singleton] at hfull
          have hnone : room = 0 := by omega
          rw [hnone, List.take_zero]
        · rename_i hmore
          have hlt : (out ++ [value]).length < limit := not_le.mp hmore
          have hrest : limit - (out ++ [value]).length = room := by
            rw [List.length_append, List.length_singleton]
            omega
          rw [ih _ hlt, hrest, List.append_assoc, List.singleton_append]

theorem compact_strings (values : List Text) :
    compactComponentStrings maxComponentStrings values [] =
      ((values.filter (· ≠ [])).eraseDups).take maxComponentStrings := by
  rw [compact_eq values [] (by decide), List.removeAll_nil]
  rfl

/-! ### The answer -/

theorem mem_globalUses (worker : Worker) (index : Option StringIndex) (members : List Resolved)
    (addr : ℕ) (name : Text) :
    (addr, name) ∈ (members.map (plainFn worker index)).flatMap globalUses ↔
      name ∈ namesUsing members (fun r => globalsOf worker r.start) addr := by
  simp only [List.mem_flatMap, List.mem_map, globalUses, namesUsing, List.mem_toFinset,
    List.mem_filter, decide_eq_true_eq]
  constructor
  · rintro ⟨_, ⟨r, hr, rfl⟩, a, ha, he⟩
    cases he
    exact ⟨r, ⟨hr, (Finset.mem_sort _).mp ha⟩, rfl⟩
  · rintro ⟨r, ⟨hr, ha⟩, rfl⟩
    exact ⟨_, ⟨r, hr, rfl⟩, addr, (Finset.mem_sort _).mpr ha, rfl⟩

/- The strings that a member refers to. -/
def textsOf (index : Option StringIndex) (r : Resolved) : Finset Text :=
  ((stringsOf index r.start r.stop).filter (· ≠ [])).toFinset

theorem mem_stringUses (worker : Worker) (index : Option StringIndex) (members : List Resolved)
    (content name : Text) :
    (content, name) ∈ (members.map (plainFn worker index)).flatMap stringUses ↔
      name ∈ namesUsing members (textsOf index) content := by
  simp only [List.mem_flatMap, List.mem_map, stringUses, namesUsing, textsOf, List.mem_toFinset,
    List.mem_filter, decide_eq_true_eq]
  constructor
  · rintro ⟨_, ⟨r, hr, rfl⟩, c, hc, he⟩
    cases he
    exact ⟨r, ⟨hr, hc⟩, rfl⟩
  · rintro ⟨r, ⟨hr, hc⟩, rfl⟩
    exact ⟨_, ⟨r, hr, rfl⟩, content, hc, rfl⟩

/- A request that is answered names functions, and the answer is that about the first of them. -/
theorem analyzeComponent_ok {quoted : Text → String} {json : JsonReader}
    {addrs : Option Payload.Value} {out : AnalyzeComponentOutput}
    (h : analyzeComponent quoted json worker addrs = .ok out) :
    ∃ value tokens resolved, addrs = some value ∧ valueToStrings json value = .ok tokens ∧
      resolveAll quoted worker tokens [] = .ok resolved ∧
      out = componentOutput worker resolved := by
  unfold analyzeComponent at h
  cases addrs with
  | none => cases h
  | some value =>
    dsimp only at h
    cases htokens : valueToStrings json value with
    | error e =>
      rw [htokens] at h
      cases h
    | ok tokens =>
      rw [htokens] at h
      by_cases hempty : tokens = []
      · simp only [bind, Except.bind, if_pos hempty] at h
        cases h
      · cases hresolved : resolveAll quoted worker tokens [] with
        | error e =>
          simp only [bind, Except.bind, if_neg hempty, hresolved] at h
          cases h
        | ok resolved =>
          simp only [bind, Except.bind, if_neg hempty, hresolved] at h
          cases h
          exact ⟨value, tokens, resolved, rfl, htokens, hresolved, rfl⟩

/-- The functions that a request names, each where it is named first, up to the limit. -/
def Members (quoted : Text → String) (json : JsonReader) (worker : Worker)
    (addrs : Option Payload.Value) (members : List Resolved) : Prop :=
  ∃ value tokens resolved, addrs = some value ∧ valueToStrings json value = .ok tokens ∧
    resolveAll quoted worker tokens [] = .ok resolved ∧ members = resolved.take maxAnalyzeTargets

/-- The shared globals and strings are exactly those that members of two names use, in the order
of their addresses and texts, each with the names in order. -/
theorem component_shares (quoted : Text → String) (json : JsonReader) (worker : Worker)
    (addrs : Option Payload.Value) (out : AnalyzeComponentOutput)
    (h : analyzeComponent quoted json worker addrs = .ok out) :
    ∃ members, Members quoted json worker addrs members ∧
      (∃ keys : List ℕ, keys.Pairwise (· < ·) ∧
        (∀ g, g ∈ keys ↔
          2 ≤ (namesUsing members (fun r => globalsOf worker r.start) g).card) ∧
        out.sharedGlobals = keys.map fun g => ⟨hexAddr g, globalName worker g,
          (namesUsing members (fun r => globalsOf worker r.start) g).sort⟩) ∧
      (∃ keys : List Text, keys.Pairwise (· < ·) ∧
        (∀ c, c ∈ keys ↔ 2 ≤ (namesUsing members (textsOf (stringScan worker).toOption) c).card) ∧
        out.stringUsage = keys.map fun c =>
          (c, (namesUsing members (textsOf (stringScan worker).toOption) c).sort)) ∧
      out.functions.map (·.strings) = members.map (fun r =>
        (((stringsOf (stringScan worker).toOption r.start r.stop).filter (· ≠ [])).eraseDups).take
          maxComponentStrings) ∧
      (out.limits.dataXrefsTruncated = true ↔
        ∃ r ∈ members, ∃ site ∈ sitesOf worker r.start, cutAt worker site = true) := by
  obtain ⟨value, tokens, resolved, hvalue, htokens, hresolved, rfl⟩ := analyzeComponent_ok h
  obtain ⟨hanalyzed, htruncated⟩ := gathered_eq worker
    (stringScan worker).toOption
    (resolved.take maxAnalyzeTargets)
  refine ⟨resolved.take maxAnalyzeTargets, ⟨value, tokens, resolved, hvalue, htokens, hresolved,
    rfl⟩, ?_, ?_, ?_, ?_⟩
  · obtain ⟨keys, hkeys, hmem, hshared⟩ := shared_spec fun addr name =>
      (mem_globalUses worker (stringScan worker).toOption (resolved.take maxAnalyzeTargets) addr
        name).symm
    refine ⟨keys, hkeys, hmem, ?_⟩
    change (shared ((Gathered.analyzed _).flatMap globalUses)).map _ = _
    rw [hanalyzed, hshared, List.map_map]
    rfl
  · obtain ⟨keys, hkeys, hmem, hshared⟩ := shared_spec fun content name =>
      (mem_stringUses worker (stringScan worker).toOption (resolved.take maxAnalyzeTargets) content
        name).symm
    refine ⟨keys, hkeys, hmem, ?_⟩
    change (shared ((Gathered.analyzed _).flatMap stringUses)).map _ = _
    rw [hanalyzed, hshared, List.map_map]
    rfl
  · change ((Gathered.analyzed _).map ComponentFn.summary).map _ = _
    rw [hanalyzed, List.map_map, List.map_map]
    refine List.map_congr_left fun r _ => ?_
    exact compact_strings _
  · change Gathered.dataXrefsTruncated _ = true ↔ _
    rw [htruncated]
    simp only [List.any_eq_true]

/-- A request without arrays. -/
def plainReader : JsonReader where
  fromStr _ := none
  trim_array _ _ h := by cases h
  array_bracket _ _ h := by cases h

/-- The mutual calls again, with the references to the two functions. -/
def pairDb : ControlFlow.CallerIdb where
  toCallIdb := ControlFlow.mutualCalls
  xrefsTo addr :=
    if addr = 16 then [⟨32, .code .nearCall⟩]
    else if addr = 32 then [⟨16, .code .nearCall⟩, ⟨18, .code .nearCall⟩]
    else []

/- Both functions use the first string, and the empty one is no string of theirs. -/
def pairStrings : List StringXrefInfo :=
  [⟨"0x80", "shared".toList, 6, ["0x12", "0x20"]⟩, ⟨"0x88", "own".toList, 3, ["0x10", "0x50"]⟩,
    ⟨"0x90", [], 0, ["0x10", "0x20"]⟩]

/-- Both functions read the word at `0x40`. -/
def pairWorker : Worker where
  functionAt addr _ :=
    match addr.bind pairDb.functionAt with
    | some func => .ok ⟨hexAddr func.startAddress, func.info.name, hexAddr func.startAddress,
        hexAddr func.endAddress, func.len⟩
    | none => .error (.functionNotFound (addr.getD 0))
  callees addr := (ControlFlow.handleCallees (2 ^ 64) (some pairDb.toCallIdb) addr).getD
    (.error .noDatabaseOpen)
  callers addr := ControlFlow.handleCallers (some pairDb) addr
  basicBlocks _ := .ok []
  xrefsFrom addr _ := .ok ⟨[⟨hexAddr addr, "0x40", ['d'], false, none⟩], false, none⟩
  xrefsToString _ _ := .ok ⟨pairStrings, 3⟩
  symbolAt _ := .ok none

def pairTokens : Payload.Value := .string "0x10, 0x20".toList

theorem pair_answered : ∃ out, analyzeComponent String.ofList plainReader pairWorker
    (some pairTokens) = .ok out ∧ out.functions.map (·.addr) = [16, 32].map hexAddr ∧
      out.sharedGlobals.map (·.addr) = [64].map hexAddr ∧
      out.stringUsage.map Prod.fst = ["shared".toList] := by
  have hrun : ((analyzeComponent String.ofList plainReader pairWorker
      (some pairTokens)).toOption.any fun out => decide
        (out.functions.map (·.addr) = [16, 32].map hexAddr ∧
          out.sharedGlobals.map (·.addr) = [64].map hexAddr ∧
          out.stringUsage.map Prod.fst = ["shared".toList])) = true := by
    decide +kernel
  cases hout : analyzeComponent String.ofList plainReader pairWorker (some pairTokens) with
  | error e =>
    rw [hout] at hrun
    cases hrun
  | ok out =>
    rw [hout] at hrun
    exact ⟨out, rfl, of_decide_eq_true hrun⟩

theorem component_shares_pair :
    ∃ members, Members String.ofList plainReader pairWorker (some pairTokens) members ∧
      2 ≤ (namesUsing members (fun r => globalsOf pairWorker r.start) 64).card ∧
      2 ≤ (namesUsing members (textsOf (stringScan pairWorker).toOption)
        "shared".toList).card := by
  obtain ⟨out, hout, -, hglobals, hstrings⟩ := pair_answered
  obtain ⟨members, hmembers, ⟨keys, -, hmem, hshared⟩, ⟨texts, -, htexts, husage⟩, -⟩ :=
    component_shares String.ofList plainReader pairWorker (some pairTokens) out hout
  rw [hshared, List.map_map] at hglobals
  have hkeys : keys = [64] := List.map_injective_iff.mpr (fun _ _ => hexAddr_injective) hglobals
  rw [husage, List.map_map] at hstrings
  have htext : "shared".toList ∈ texts := by
    have hsame : texts = ["shared".toList] := by simpa [Function.comp_def] using hstrings
    rw [hsame]
    exact List.mem_singleton_self _
  exact ⟨members, hmembers, (hmem 64).mp (hkeys ▸ List.mem_cons_self), (htexts _).mp htext⟩

end IdaHeadless.Composite
