import IdaHeadless.Routes
import IdaHeadless.ToolError
import Mathlib.Data.List.FinRange

/-!
# Paths between two blocks (handlers/controlflow.rs)

A depth-first search over the basic blocks of a function. The path under construction and the
results are shared by all calls, and each call leaves the path as it found it.
-/

namespace IdaHeadless.ControlFlow

open Routes

/-! ### The control-flow graph -/

/-- A basic block with the start addresses of its successors. -/
structure Block where
  startAddress : ℕ
  containsAddress : ℕ → Bool
  succs : List ℕ

structure FunctionCFG where
  blocks : List Block
  starts_nodup : (blocks.map Block.startAddress).Nodup

structure CfgFunction where
  containsAddress : ℕ → Bool
  cfg : Except String FunctionCFG

/-- What the path search reads of a database. -/
structure CfgIdb where
  functionAt : ℕ → Option CfgFunction

variable (cfg : FunctionCFG)

def FunctionCFG.startOf (i : Fin cfg.blocks.length) : ℕ := (cfg.blocks.get i).startAddress

/-- The map from the start of a block to its index, filled block by block. -/
def indexByStart : ℕ → Option (Fin cfg.blocks.length) :=
  (List.finRange cfg.blocks.length).foldl
    (fun index i => Function.update index (cfg.startOf i) (some i)) fun _ => none

/-! ### The search -/

/-- What the calls of `dfs` share. -/
structure Search where
  path : List (Fin cfg.blocks.length)
  results : List (List String)

variable {cfg}

/-- The loop over the successors, with the call for one of them as `visit`. -/
def visitSuccs (visit : Fin cfg.blocks.length → Search cfg → Option (Search cfg)) (maxPaths : ℕ) :
    List ℕ → Search cfg → Option (Search cfg)
  | [], search => some search
  | addr :: rest, search =>
    match indexByStart cfg addr with
    | none => visitSuccs visit maxPaths rest search
    | some next =>
      if next ∈ search.path then visitSuccs visit maxPaths rest search
      else (visit next search).bind fun search =>
        if search.results.length ≥ maxPaths then some search
        else visitSuccs visit maxPaths rest search

def rendered (path : List (Fin cfg.blocks.length)) : List String :=
  path.map fun i => hexAddr (cfg.startOf i)

def dfs (stop : Fin cfg.blocks.length) (maxDepth maxPaths : ℕ) :
    ℕ → Fin cfg.blocks.length → Search cfg → Option (Search cfg)
  | 0, _, _ => none
  | fuel + 1, cur, search =>
    if search.results.length ≥ maxPaths then some search
    else if search.path.length > maxDepth then some search
    else
      let path := search.path ++ [cur]
      if cur = stop then some ⟨path.dropLast, search.results ++ [rendered path]⟩
      else
        (visitSuccs (dfs stop maxDepth maxPaths fuel) maxPaths (cfg.blocks.get cur).succs
          ⟨path, search.results⟩).map fun search => { search with path := search.path.dropLast }

structure PathsAnswer where
  paths : List (List String)
  count : ℕ

def handleFindPaths (fuel : ℕ) (idb : Option CfgIdb) (start stop maxPaths maxDepth : ℕ) :
    Option (Except ToolError PathsAnswer) :=
  match idb with
  | none => some (.error .noDatabaseOpen)
  | some db =>
    match db.functionAt start with
    | none => some (.error (.functionNotFound start))
    | some func =>
      if func.containsAddress stop = false then
        some (.error (.notSupported "find_paths only supports addresses within the same function"))
      else
        match func.cfg with
        | .error e => some (.error (.idaError e))
        | .ok cfg =>
          match cfg.blocks.findFinIdx? (·.containsAddress start) with
          | none => some (.error (.addressOutOfRange start))
          | some startIdx =>
            match cfg.blocks.findFinIdx? (·.containsAddress stop) with
            | none => some (.error (.addressOutOfRange stop))
            | some endIdx =>
              (dfs endIdx (max maxDepth 1) (max maxPaths 1) fuel startIdx ⟨[], []⟩).map
                fun search =>
                .ok ⟨search.results, search.results.length⟩

/-! ### The graph that the search follows -/

variable (cfg) in
/-- The block that starts at an address. -/
def FunctionCFG.blockFrom (addr : ℕ) : Option (Fin cfg.blocks.length) :=
  (List.finRange cfg.blocks.length).find? fun i => cfg.startOf i = addr

variable (cfg) in
def FunctionCFG.successors (i : Fin cfg.blocks.length) : List (Fin cfg.blocks.length) :=
  (cfg.blocks.get i).succs.filterMap cfg.blockFrom

theorem startOf_injective {i j : Fin cfg.blocks.length} (h : cfg.startOf i = cfg.startOf j) :
    i = j := by
  have hnodup := List.nodup_iff_injective_get.mp cfg.starts_nodup
  have heq : (cfg.blocks.map Block.startAddress).get (i.cast (by simp)) =
      (cfg.blocks.map Block.startAddress).get (j.cast (by simp)) := by
    simpa [FunctionCFG.startOf] using h
  simpa using hnodup heq

/- What is entered for an address is the block that starts there, or what was there before. -/
theorem indexByStart_foldl (is : List (Fin cfg.blocks.length))
    (index : ℕ → Option (Fin cfg.blocks.length)) (addr : ℕ) :
    is.foldl (fun index i => Function.update index (cfg.startOf i) (some i)) index addr =
      ((is.find? fun i => cfg.startOf i = addr).or (index addr)) := by
  induction is generalizing index with
  | nil => rfl
  | cons i is ih =>
    rw [List.foldl_cons, ih, List.find?_cons]
    by_cases hi : cfg.startOf i = addr
    · subst hi
      simp only [decide_true, Function.update_self, Option.some_or]
      cases hfind : is.find? fun j => cfg.startOf j = cfg.startOf i with
      | none => rfl
      | some j =>
        have hj := List.find?_some hfind
        rw [Option.some_or, startOf_injective (of_decide_eq_true hj)]
    · simp only [hi, decide_false, Function.update_of_ne (Ne.symm hi)]

theorem indexByStart_eq (addr : ℕ) : indexByStart cfg addr = cfg.blockFrom addr := by
  rw [indexByStart, indexByStart_foldl, Option.or_none, FunctionCFG.blockFrom]

/-! ### What one call adds -/

variable {stop cur : Fin cfg.blocks.length} {maxDepth maxPaths : ℕ}
  {path : List (Fin cfg.blocks.length)}

/-- The rendered paths that go on from `path` through `cur`. -/
def rowsFrom (stop : Fin cfg.blocks.length) (depth : ℕ) (path : List (Fin cfg.blocks.length))
    (cur : Fin cfg.blocks.length) : List (List String) :=
  ((simpleRoutes cfg.successors stop depth path cur).map Prod.snd).map fun nodes =>
    rendered (path ++ nodes)

theorem rowsFrom_succ (depth : ℕ) :
    rowsFrom stop (depth + 1) path cur =
      if cur = stop then [rendered (path ++ [cur])]
      else (cfg.successors cur).flatMap fun next =>
        if next ∈ path ++ [cur] then [] else rowsFrom stop depth (path ++ [cur]) next := by
  rw [rowsFrom, map_snd_simpleRoutes]
  split
  · rfl
  · rw [List.map_flatMap]
    refine List.flatMap_congr fun next _ => ?_
    split
    · rfl
    · simp only [rowsFrom, List.map_map, Function.comp_def, List.append_assoc,
        List.singleton_append]

/- Each visit adds its rows up to the limit and leaves the path alone. Then so does the loop. -/
theorem visitSuccs_eq {visit : Fin cfg.blocks.length → Search cfg → Option (Search cfg)}
    {rows : Fin cfg.blocks.length → List (List String)}
    (hvisit : ∀ next ∉ path, ∀ results, visit next ⟨path, results⟩ =
      some ⟨path, results ++ (rows next).take (maxPaths - results.length)⟩)
    (addrs : List ℕ) {results : List (List String)} (hresults : results.length < maxPaths) :
    visitSuccs visit maxPaths addrs ⟨path, results⟩ =
      some ⟨path, results ++ ((addrs.filterMap cfg.blockFrom).flatMap fun next =>
        if next ∈ path then [] else rows next).take (maxPaths - results.length)⟩ := by
  induction addrs generalizing results with
  | nil => simp [visitSuccs]
  | cons addr rest ih =>
    rw [visitSuccs, indexByStart_eq]
    cases hindex : cfg.blockFrom addr with
    | none =>
      rw [List.filterMap_cons_none hindex]
      exact ih hresults
    | some next =>
      rw [List.filterMap_cons_some hindex, List.flatMap_cons]
      by_cases hseen : next ∈ path
      · simp only [hseen, if_true, List.nil_append]
        exact ih hresults
      · simp only [hseen, if_false, hvisit next hseen, Option.bind_some]
        rw [List.take_append]
        by_cases hfull : maxPaths - results.length ≤ (rows next).length
        · -- the limit is reached inside the rows of this successor
          have hlen :
              (results ++ (rows next).take (maxPaths - results.length)).length ≥ maxPaths := by
            rw [List.length_append, List.length_take]
            omega
          rw [if_pos hlen, show maxPaths - results.length - (rows next).length = 0 by omega,
            List.take_zero, List.append_nil]
        · have hall : (rows next).take (maxPaths - results.length) = rows next :=
            List.take_of_length_le (by omega)
          have hlen : (results ++ rows next).length < maxPaths := by
            rw [List.length_append]
            omega
          rw [hall, if_neg (by omega), ih hlen, List.length_append, Nat.sub_add_eq,
            List.append_assoc]

/- The induction is on the edges that are left before `maxDepth`. -/
theorem dfs_eq (cur : Fin cfg.blocks.length) (path : List (Fin cfg.blocks.length))
    (results : List (List String)) (fuel : ℕ) (hfuel : maxDepth + 1 - path.length < fuel) :
    dfs stop maxDepth maxPaths fuel cur ⟨path, results⟩ =
      some ⟨path, results ++ (rowsFrom stop (maxDepth + 1 - path.length) path cur).take
        (maxPaths - results.length)⟩ := by
  induction fuel generalizing cur path results with
  | zero => omega
  | succ fuel ih =>
    rw [dfs]
    by_cases hfull : results.length ≥ maxPaths
    · rw [if_pos hfull, Nat.sub_eq_zero_of_le hfull, List.take_zero, List.append_nil]
    · by_cases hdeep : path.length > maxDepth
      · have hnone : maxDepth + 1 - path.length = 0 := by omega
        rw [if_neg hfull, if_pos hdeep, hnone, rowsFrom, simpleRoutes]
        simp
      · have hsucc : maxDepth + 1 - path.length = maxDepth + 1 - (path ++ [cur]).length + 1 := by
          rw [List.length_append, List.length_singleton]
          omega
        rw [if_neg hfull, if_neg hdeep, hsucc, rowsFrom_succ]
        by_cases hstop : cur = stop
        · have hroom : List.take (maxPaths - results.length) [rendered (path ++ [cur])] =
              [rendered (path ++ [cur])] :=
            List.take_of_length_le (by rw [List.length_singleton]; omega)
          simp only [if_pos hstop, hroom, List.dropLast_concat]
        · have hvisit : ∀ next ∉ path ++ [cur], ∀ results,
              dfs stop maxDepth maxPaths fuel next ⟨path ++ [cur], results⟩ =
                some ⟨path ++ [cur], results ++ (rowsFrom stop
                  (maxDepth + 1 - (path ++ [cur]).length) (path ++ [cur]) next).take
                    (maxPaths - results.length)⟩ :=
            fun next _ results => ih next (path ++ [cur]) results (by omega)
          have hloop := visitSuccs_eq hvisit (cfg.blocks.get cur).succs (Nat.lt_of_not_le hfull)
          simp only [if_neg hstop, hloop, Option.map_some, List.dropLast_concat]
          rfl

/-! ### The search lists the simple paths -/

/-- The search answers with the simple paths to the target in the order of their branches, the first
of them if there are too many. -/
theorem find_paths_exact (db : CfgIdb) (start stop maxPaths maxDepth : ℕ) (func : CfgFunction)
    (cfg : FunctionCFG) (first last : Fin cfg.blocks.length)
    (hfunc : db.functionAt start = some func) (hstop : func.containsAddress stop = true)
    (hcfg : func.cfg = .ok cfg)
    (hfirst : cfg.blocks.findFinIdx? (·.containsAddress start) = some first)
    (hlast : cfg.blocks.findFinIdx? (·.containsAddress stop) = some last) :
    ∃ (answer : PathsAnswer) (found : List (List ℕ × List (Fin cfg.blocks.length))),
      (∀ fuel ≥ max maxDepth 1 + 2,
        handleFindPaths fuel (some db) start stop maxPaths maxDepth = some (.ok answer)) ∧
      (∀ choices nodes, (choices, nodes) ∈ found ↔
        trace cfg.successors first choices = some nodes ∧ nodes.Nodup ∧
          nodes.getLast? = some last ∧ choices.length ≤ max maxDepth 1) ∧
      (found.Pairwise fun route later => route.1 < later.1) ∧
      answer.paths = (found.take (max maxPaths 1)).map (fun route =>
        route.2.map fun i => hexAddr (cfg.startOf i)) ∧
      answer.count = answer.paths.length := by
  have hdfs : ∀ fuel ≥ max maxDepth 1 + 2,
      dfs last (max maxDepth 1) (max maxPaths 1) fuel first ⟨[], []⟩ =
        some ⟨[], (rowsFrom last (max maxDepth 1 + 1) [] first).take (max maxPaths 1)⟩ :=
    fun fuel hfuel => dfs_eq first [] [] fuel (by rw [List.length_nil]; omega)
  obtain ⟨rows, hrows⟩ : ∃ rows,
      rows = (rowsFrom last (max maxDepth 1 + 1) [] first).take (max maxPaths 1) := ⟨_, rfl⟩
  refine ⟨⟨rows, rows.length⟩, simpleRoutes cfg.successors last (max maxDepth 1 + 1) [] first,
    fun fuel hfuel => ?_, fun choices nodes => ?_, simpleRoutes_sorted _ _ _ _ _, ?_, rfl⟩
  · rw [handleFindPaths]
    simp only [hfunc, hstop, hcfg, hfirst, hlast, hdfs fuel hfuel, Bool.true_eq_false, if_false,
      Option.map_some, hrows]
  · rw [mem_simpleRoutes List.not_mem_nil]
    constructor
    · rintro ⟨hsimple, hlen⟩
      exact ⟨hsimple.follows, hsimple.nodup, hsimple.last, Nat.le_of_lt_succ hlen⟩
    · rintro ⟨hfollows, hnodup, hlast, hlen⟩
      exact ⟨⟨hfollows, hnodup, fun _ _ => List.not_mem_nil, hlast⟩, Nat.lt_succ_of_le hlen⟩
  · simp only [hrows, rowsFrom, List.map_map, List.map_take]
    rfl

/-- Three blocks with a self loop, a pair of parallel edges and an edge back. -/
def threeBlocks : FunctionCFG where
  blocks := [⟨16, fun a => 16 ≤ a && a < 32, [32, 32, 16]⟩,
    ⟨32, fun a => 32 ≤ a && a < 48, [16, 48]⟩,
    ⟨48, fun a => 48 ≤ a && a < 64, []⟩]
  starts_nodup := by decide

theorem find_paths_three_blocks :
    ∃ (answer : PathsAnswer) (found : List (List ℕ × List (Fin threeBlocks.blocks.length))),
      (∀ fuel ≥ 7, handleFindPaths fuel (some ⟨fun _ => some ⟨fun _ => true, .ok threeBlocks⟩⟩)
        18 50 10 5 = some (.ok answer)) ∧
      ([0, 1], ([0, 1, 2] : List (Fin 3))) ∈ found ∧ ([1, 1], ([0, 1, 2] : List (Fin 3))) ∈ found ∧
      answer.paths = (found.take 10).map fun route =>
        route.2.map fun i => hexAddr (threeBlocks.startOf i) := by
  obtain ⟨answer, found, hanswer, hfound, -, hpaths, -⟩ :=
    find_paths_exact ⟨fun _ => some ⟨fun _ => true, .ok threeBlocks⟩⟩ 18 50 10 5
      ⟨fun _ => true, .ok threeBlocks⟩ threeBlocks (0 : Fin 3) (2 : Fin 3) rfl rfl rfl (by decide)
      (by decide)
  have hnodup : ([0, 1, 2] : List (Fin 3)).Nodup := by decide
  exact ⟨answer, found, hanswer, (hfound _ _).mpr ⟨rfl, hnodup, rfl, by decide⟩,
    (hfound _ _).mpr ⟨rfl, hnodup, rfl, by decide⟩, hpaths⟩

end IdaHeadless.ControlFlow
