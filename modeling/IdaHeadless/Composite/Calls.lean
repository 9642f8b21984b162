import IdaHeadless.Composite.Joins

/-!
# Calls inside a component and into it (server/tools/composite.rs)

When the worker answers from the database, the internal call graph has one edge for each pair of
members of which one calls the other, and a member is internal exactly if no function outside of
the component calls it.
-/

namespace IdaHeadless.Composite

open Address Unseen
open ControlFlow (CallerIdb FunctionInfo handleCallees handleCallers calleesOf callersOf
  handleCallees_eq handleCallers_eq calleesOf_spec calleesOf_lt callersOf_lt)

variable {quoted : Text → String} {worker : Worker} {db : CallerIdb} {members : List Resolved}
  {starts : List ℕ}

/-- The worker's answers about calls are those of the handlers. -/
structure Answers (db : CallerIdb) (worker : Worker) : Prop where
  callees : ∀ addr, handleCallees (2 ^ 64) (some db.toCallIdb) addr = some (worker.callees addr)
  callers : ∀ addr, handleCallers (some db) addr = worker.callers addr

/-! ### The members -/

/- The tokens resolve one by one, and a start that was there before is left out. -/
theorem resolveAll_starts {tokens : List Text} {acc resolved : List Resolved}
    (h : resolveAll quoted worker tokens acc = .ok resolved) :
    ∃ ranges, List.Forall₂ (fun token r => resolveToken quoted worker token = .ok r) tokens ranges ∧
      resolved.map Resolved.start =
        (ranges.map Resolved.start).foldl insertNew (acc.map Resolved.start) := by
  induction tokens generalizing acc with
  | nil =>
    cases h
    exact ⟨[], .nil, rfl⟩
  | cons token tokens ih =>
    rw [resolveAll] at h
    cases hr : resolveToken quoted worker token with
    | error e =>
      rw [hr] at h
      cases h
    | ok r =>
      simp only [hr, bind, Except.bind] at h
      split at h
      · rename_i hseen
        obtain ⟨ranges, hranges, hstarts⟩ := ih h
        refine ⟨r :: ranges, .cons hr hranges, ?_⟩
        rw [hstarts, List.map_cons, List.foldl_cons, insertNew, if_pos hseen]
      · rename_i hnew
        obtain ⟨ranges, hranges, hstarts⟩ := ih h
        refine ⟨r :: ranges, .cons hr hranges, ?_⟩
        rw [hstarts, List.map_cons, List.foldl_cons, insertNew, if_neg hnew, List.map_append]
        rfl

/-! ### The calls of one member -/

theorem callRefs_ends (start : ℕ) {infos : List FunctionInfo} {targets : List ℕ}
    (h : infos.map FunctionInfo.address = targets.map hexAddr) (hlt : ∀ g ∈ targets, g < 2 ^ 64) :
    (infos.filterMap fun callee => (parseAddress callee.address.toList).toOption.map fun target =>
        (start, target, callee.name)).map (fun c => (c.1, c.2.1)) =
      targets.map fun g => (start, g) := by
  induction targets generalizing infos with
  | nil =>
    rw [List.map_eq_nil_iff.mp h]
    rfl
  | cons g targets ih =>
    cases infos with
    | nil => cases h
    | cons info infos =>
      obtain ⟨haddr, hrest⟩ := List.cons_eq_cons.mp h
      have hparse : parseAddress info.address.toList = .ok g := by
        rw [haddr]
        exact parseAddress_hexAddr (hlt g List.mem_cons_self)
      rw [List.filterMap_cons_some (by rw [hparse]; rfl), List.map_cons, List.map_cons,
        ih hrest fun g' hg' => hlt g' (List.mem_cons_of_mem g hg')]

theorem plainFn_calls (hworker : Answers db worker) (index : Option StringIndex) (r : Resolved) :
    (callRefs (plainFn worker index r)).map (fun c => (c.1, c.2.1)) =
      (calleesOf db.toCallIdb r.start).map fun g => (r.start, g) := by
  obtain ⟨infos, haddrs, hinfos⟩ := handleCallees_eq db.toCallIdb r.start
  rw [hworker.callees, Option.map_some, Option.some_inj] at hinfos
  have hlt : ∀ g ∈ calleesOf db.toCallIdb r.start, g < 2 ^ 64 := fun g => calleesOf_lt
  rw [← hinfos] at haddrs
  exact callRefs_ends r.start haddrs hlt

theorem any_external {infos : List FunctionInfo} {sources : List ℕ}
    (h : infos.map FunctionInfo.address = sources.map hexAddr) (hlt : ∀ g ∈ sources, g < 2 ^ 64) :
    (infos.any fun caller =>
      match parseAddress caller.address.toList with
      | .ok callerAddr => callerAddr ∉ starts
      | .error _ => true) = sources.any (· ∉ starts) := by
  induction sources generalizing infos with
  | nil =>
    rw [List.map_eq_nil_iff.mp h]
    rfl
  | cons g sources ih =>
    cases infos with
    | nil => cases h
    | cons info infos =>
      obtain ⟨haddr, hrest⟩ := List.cons_eq_cons.mp h
      have hparse : parseAddress info.address.toList = .ok g := by
        rw [haddr]
        exact parseAddress_hexAddr (hlt g List.mem_cons_self)
      rw [List.any_cons, List.any_cons, hparse,
        ih hrest fun g' hg' => hlt g' (List.mem_cons_of_mem g hg')]

theorem plainFn_external (hworker : Answers db worker) (index : Option StringIndex)
    (r : Resolved) :
    hasExternal starts (plainFn worker index r) = (callersOf db r.start).any (· ∉ starts) := by
  have haddrs := handleCallers_eq db r.start
  rw [hworker.callers] at haddrs
  exact any_external haddrs fun g => callersOf_lt

/-! ### The calls of all members -/

def edgesAmong (db : CallerIdb) (starts : List ℕ) : List (String × String) :=
  starts.flatMap fun m => ((calleesOf db.toCallIdb m).filter (· ∈ starts)).map fun g =>
    (hexAddr m, hexAddr g)

theorem edgesAmong_nodup (h : starts.Nodup) : (edgesAmong db starts).Nodup := by
  refine List.nodup_flatMap.mpr ⟨fun m _ => ?_, h.imp fun {m m'} hne => ?_⟩
  · refine ((calleesOf_spec db.toCallIdb m).1.filter _).map fun g g' he => ?_
    exact hexAddr_injective (congrArg Prod.snd he)
  · intro e he he'
    obtain ⟨g, -, rfl⟩ := List.mem_map.mp he
    obtain ⟨g', -, he'⟩ := List.mem_map.mp he'
    exact hne (hexAddr_injective (congrArg Prod.fst he')).symm

theorem edges_eq (hworker : Answers db worker) (index : Option StringIndex)
    (members : List Resolved) :
    (componentInternalCallGraph (members.map Resolved.start)
        ((members.map (plainFn worker index)).flatMap callRefs)).edges.map
          (fun e => (e.source, e.target)) =
      edgesAmong db (members.map Resolved.start) := by
  have hpairs : ((members.map (plainFn worker index)).flatMap callRefs).map
      (fun c => (c.1, c.2.1)) =
      (members.map Resolved.start).flatMap fun m =>
        (calleesOf db.toCallIdb m).map fun g => (m, g) := by
    rw [List.map_flatMap, List.flatMap_map, List.flatMap_map]
    exact List.flatMap_congr fun r _ => plainFn_calls hworker index r
  have hfilter : ∀ refs : List (ℕ × ℕ × Text),
      ((componentInternalCallGraph (members.map Resolved.start) refs).edges.map
          fun e => (e.source, e.target)) =
        (((refs.map fun c => (c.1, c.2.1)).filter fun c =>
          c.1 ∈ members.map Resolved.start ∧ c.2 ∈ members.map Resolved.start).map
            fun c => (hexAddr c.1, hexAddr c.2)) := by
    intro refs
    rw [componentInternalCallGraph, List.filter_map, List.map_map, List.map_map]
    rfl
  rw [hfilter, hpairs, edgesAmong, List.filter_flatMap, List.map_flatMap]
  refine List.flatMap_congr fun m hm => ?_
  rw [List.filter_map, List.map_map]
  refine congrArg (List.map _) (List.filter_congr fun g _ => ?_)
  simp only [Function.comp_apply, hm, true_and]

theorem members_where (index : Option StringIndex) (members : List Resolved)
    {p : ComponentFn → Bool} {q : ℕ → Bool}
    (h : ∀ r, p (plainFn worker index r) = q r.start) :
    ((members.map (plainFn worker index)).filter p).map (fun func => hexAddr func.start) =
      ((members.map Resolved.start).filter q).map hexAddr := by
  rw [List.filter_map, List.filter_map, List.map_map, List.map_map]
  exact congrArg (List.map _) (List.filter_congr fun r _ => h r)

/-- The tokens name the members, each once and in the order of the request. An edge stands for each
call between two of them, and the interface functions are those that are called from outside. -/
theorem component_calls (quoted : Text → String) (json : JsonReader) (worker : Worker)
    (db : CallerIdb) (hworker : Answers db worker) (addrs : Option Payload.Value)
    (out : AnalyzeComponentOutput) (h : analyzeComponent quoted json worker addrs = .ok out) :
    ∃ value tokens ranges starts, addrs = some value ∧ valueToStrings json value = .ok tokens ∧
      List.Forall₂ (fun token r => resolveToken quoted worker token = .ok r) tokens ranges ∧
      starts = (ranges.map Resolved.start).eraseDups.take maxAnalyzeTargets ∧
      out.functions.map (·.addr) = starts.map hexAddr ∧
      (out.limits.targetsTruncated = true ↔
        maxAnalyzeTargets < (ranges.map Resolved.start).eraseDups.length) ∧
      out.internalCallGraph.nodes = starts.map hexAddr ∧
      out.internalCallGraph.edges.map (fun e => (e.source, e.target)) = edgesAmong db starts ∧
      (out.internalCallGraph.edges.map fun e => (e.source, e.target)).Nodup ∧
      out.interfaceFunctions =
        (starts.filter fun m => (callersOf db m).any (· ∉ starts)).map hexAddr ∧
      out.internalOnly =
        (starts.filter fun m => (callersOf db m).all (· ∈ starts)).map hexAddr := by
  obtain ⟨value, tokens, resolved, hvalue, htokens, hresolved, rfl⟩ := analyzeComponent_ok h
  obtain ⟨ranges, hranges, hstarts⟩ := resolveAll_starts hresolved
  have hdistinct : resolved.map Resolved.start = (ranges.map Resolved.start).eraseDups :=
    hstarts.trans (foldl_insertNew_nil _)
  have htake : (resolved.take maxAnalyzeTargets).map Resolved.start =
      (ranges.map Resolved.start).eraseDups.take maxAnalyzeTargets := by
    rw [List.map_take, hdistinct]
  have hanalyzed := (gathered_eq worker (stringScan worker).toOption
    (resolved.take maxAnalyzeTargets)).1
  have hedges := edges_eq hworker (stringScan worker).toOption (resolved.take maxAnalyzeTargets)
  have hnodup : (ranges.map Resolved.start).eraseDups.Nodup := nodup_eraseDups _
  have hgraph : (componentOutput worker resolved).internalCallGraph.edges.map
      (fun e => (e.source, e.target)) =
      edgesAmong db ((ranges.map Resolved.start).eraseDups.take maxAnalyzeTargets) := by
    rw [← htake, ← hedges, ← hanalyzed]
    rfl
  refine ⟨value, tokens, ranges, _, hvalue, htokens, hranges, rfl, ?_, ?_, ?_, hgraph, ?_, ?_, ?_⟩
  · change ((Gathered.analyzed _).map ComponentFn.summary).map _ = _
    rw [hanalyzed, ← htake, List.map_map, List.map_map, List.map_map]
    rfl
  · rw [← hdistinct, List.length_map]
    exact decide_eq_true_iff
  · rw [← htake]
    rfl
  · rw [hgraph]
    exact edgesAmong_nodup (hnodup.sublist (List.take_sublist _ _))
  · change ((Gathered.analyzed _).filter _).map _ = _
    rw [hanalyzed, ← htake]
    exact members_where _ _ fun r => plainFn_external hworker _ r
  · change ((Gathered.analyzed _).filter _).map _ = _
    rw [hanalyzed, ← htake]
    refine members_where _ _ fun r => ?_
    rw [plainFn_external hworker, List.not_any_eq_all_not]
    simp

theorem pairWorker_answers : Answers pairDb pairWorker where
  callees addr := by
    obtain ⟨infos, -, hinfos⟩ := handleCallees_eq pairDb.toCallIdb addr
    obtain ⟨callees, hcallees, -⟩ := Option.map_eq_some_iff.mp hinfos
    change _ = some ((handleCallees (2 ^ 64) (some pairDb.toCallIdb) addr).getD _)
    rw [hcallees]
    rfl
  callers _ := rfl

theorem component_calls_pair :
    ∃ out, analyzeComponent String.ofList plainReader pairWorker (some pairTokens) = .ok out ∧
      out.internalOnly = ["0x10", "0x20"] ∧ out.interfaceFunctions = [] := by
  obtain ⟨out, hout, hfunctions, -⟩ := pair_answered
  obtain ⟨value, tokens, ranges, starts, -, -, -, -, haddrs, -, -, -, -, hinterface, hinternal⟩ :=
    component_calls String.ofList plainReader pairWorker pairDb pairWorker_answers (some pairTokens)
      out hout
  have hstarts : starts = [16, 32] :=
    List.map_injective_iff.mpr (fun _ _ => hexAddr_injective) (haddrs.symm.trans hfunctions)
  rw [hstarts] at hinterface hinternal
  refine ⟨out, hout, hinternal.trans ?_, hinterface.trans ?_⟩
  · decide +kernel
  · decide +kernel

end IdaHeadless.Composite
