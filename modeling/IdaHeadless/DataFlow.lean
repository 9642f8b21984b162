import IdaHeadless.Address
import IdaHeadless.BoundedWalk
import IdaHeadless.Xrefs

/-!
# Tracing data flow (server/tools/composite.rs)

A breadth-first walk over cross references, one page of them for each address. The step filters
its neighbours against the addresses that were visited before, and the loop then adds them one by
one up to the node limit. A flag is raised for every limit that cut something off.
-/

namespace IdaHeadless.DataFlow

open BoundedWalk Address Xrefs

/-! ### The worker -/

def traceMaxNodes : ℕ := 200
def traceMaxEdges : ℕ := 500
def traceXrefsPerNode : ℕ := 32

structure AddrInfo where
  function : Option (List Char)
  symbol : Option (List Char)

/-- What the trace asks the worker. -/
structure Worker where
  xrefsFrom : ℕ → XrefQuery → Except ToolError XRefListResult
  xrefsTo : ℕ → XrefQuery → Except ToolError XRefListResult
  addrInfo : ℕ → Except ToolError AddrInfo
  disasm : ℕ → Except ToolError String

inductive TraceDirection where
  | forward
  | backward
  deriving DecidableEq

structure TraceHopEdge where
  source : ℕ
  target : ℕ
  isCode : Bool
  deriving DecidableEq

inductive TraceRefKind where
  | code
  | data
  deriving DecidableEq

structure TraceDataFlowNode where
  addr : String
  func : Option (List Char)
  instruction : Option String
  type : TraceRefKind
  name : Option (List Char)
  depth : ℕ

structure TraceDataFlowEdge where
  source : String
  target : String
  type : TraceRefKind

/- The worker may fail, and then the node has less to tell. -/
def traceDataFlowNode (worker : Worker) (addr depth : ℕ) : TraceDataFlowNode :=
  let info := (worker.addrInfo addr).toOption
  let func := info.bind AddrInfo.function
  let name := info.bind fun info => info.symbol <|> info.function
  ⟨hexAddr addr, func, (worker.disasm addr).toOption, if func.isSome then .code else .data, name,
    depth⟩

def TraceHopEdge.render (hop : TraceHopEdge) : TraceDataFlowEdge :=
  ⟨hexAddr hop.source, hexAddr hop.target, if hop.isCode then .code else .data⟩

structure Walked where
  visited : List ℕ
  queue : List (ℕ × ℕ)
  nodes : List TraceDataFlowNode
  edges : List TraceDataFlowEdge
  depthReached : ℕ
  nodesTruncated : Bool
  edgesTruncated : Bool
  xrefsTruncated : Bool

def recordEdges : List TraceHopEdge → Walked → Walked
  | [], st => st
  | hop :: rest, st =>
    if st.edges.length ≥ traceMaxEdges then { st with edgesTruncated := true }
    else recordEdges rest { st with edges := st.edges ++ [hop.render] }

def visitNeighbors (worker : Worker) (depth : ℕ) : List ℕ → Walked → Walked
  | [], st => st
  | neighbor :: rest, st =>
    if st.nodes.length ≥ traceMaxNodes then { st with nodesTruncated := true }
    else if neighbor ∈ st.visited then visitNeighbors worker depth rest st
    else visitNeighbors worker depth rest
      { st with
        visited := st.visited ++ [neighbor]
        nodes := st.nodes ++ [traceDataFlowNode worker neighbor (depth + 1)]
        queue := st.queue ++ [(neighbor, depth + 1)] }

/-- A database whose chains from an address start there, and whose chains to it end there. -/
structure TraceIdb extends Idb where
  from_source : ∀ a, ∀ xref ∈ (xrefsFrom a).refs, xref.source = a ∧ xref.target < 2 ^ 64
  to_target : ∀ a, ∀ xref ∈ (xrefsTo a).refs, xref.target = a ∧ xref.source < 2 ^ 64

/-- Every page is answered by the handlers. -/
structure Answers (kit : Paging.NextRule) (db : TraceIdb) (worker : Worker) : Prop where
  from_eq : ∀ a query, worker.xrefsFrom a query = handleXrefsFrom kit (some db.toIdb) a query
  to_eq : ∀ a query, worker.xrefsTo a query = handleXrefsTo kit (some db.toIdb) a query

variable {kit : Paging.NextRule} {db : TraceIdb} {worker : Worker} {direction : TraceDirection}
  {start maxDepth : ℕ}

def refsOf (db : TraceIdb) (direction : TraceDirection) (a : ℕ) : List XRef :=
  match direction with
  | .forward => (db.xrefsFrom a).refs
  | .backward => (db.xrefsTo a).refs

def XRef.edge (xref : XRef) : TraceHopEdge := ⟨xref.source, xref.target, xref.isCode⟩

/-- What the page of an address shows. -/
def shownRefs (db : TraceIdb) (direction : TraceDirection) (a : ℕ) : List XRef :=
  (refsOf db direction a).take traceXrefsPerNode

theorem recordEdges_eq (hops : List TraceHopEdge) (st : Walked)
    (h : st.edges.length ≤ traceMaxEdges) :
    recordEdges hops st = { st with
      edges := (st.edges ++ hops.map TraceHopEdge.render).take traceMaxEdges
      edgesTruncated := st.edgesTruncated ||
        decide (traceMaxEdges < st.edges.length + hops.length) } := by
  induction hops generalizing st with
  | nil =>
    have hedges : (st.edges ++ [].map TraceHopEdge.render).take traceMaxEdges = st.edges := by
      rw [List.map_nil, List.append_nil, List.take_of_length_le h]
    rw [hedges, List.length_nil, decide_eq_false (by omega), Bool.or_false, recordEdges]
  | cons hop hops ih =>
    rw [recordEdges]
    by_cases hfull : st.edges.length ≥ traceMaxEdges
    · rw [if_pos hfull, List.take_append_of_le_length hfull, List.take_of_length_le h,
        List.length_cons, decide_eq_true (by omega), Bool.or_true]
    · have hlen : (st.edges ++ [hop.render]).length = st.edges.length + 1 := by simp
      rw [if_neg hfull, ih _ (by rw [hlen]; omega)]
      simp only [hlen, List.append_assoc, List.singleton_append, List.map_cons, List.length_cons,
        Nat.add_assoc, Nat.add_comm 1]

/-- The edges that the expanded nodes have, without a limit. -/
def allEdges (db : TraceIdb) (direction : TraceDirection) (maxDepth : ℕ) (done : List (ℕ × ℕ)) :
    List TraceHopEdge :=
  (done.filter (·.2 < maxDepth)).flatMap fun p => (shownRefs db direction p.1).map XRef.edge

/-- What was recorded of the nodes that are done. -/
structure Records (db : TraceIdb) (direction : TraceDirection) (maxDepth : ℕ) (st : Walked)
    (done : List (ℕ × ℕ)) : Prop where
  edges_eq : st.edges =
    ((allEdges db direction maxDepth done).take traceMaxEdges).map TraceHopEdge.render
  edgesTruncated_eq : st.edgesTruncated =
    decide (traceMaxEdges < (allEdges db direction maxDepth done).length)
  xrefsTruncated_eq : st.xrefsTruncated = (done.filter (·.2 < maxDepth)).any fun p =>
    decide (traceXrefsPerNode < (refsOf db direction p.1).length)

/-- The nodes and the queue are those of the walk. -/
structure Tracks (worker : Worker) (st : Walked) (w : Walk ℕ) : Prop where
  visited_eq : st.visited = w.seen
  queue_eq : st.queue = w.queue
  nodes_eq : st.nodes = w.nodes.map fun p => traceDataFlowNode worker p.1 p.2
  truncated_eq : st.nodesTruncated = w.dropped

theorem Tracks.recordEdges {st : Walked} {w : Walk ℕ} (h : Tracks worker st w)
    (hops : List TraceHopEdge) : Tracks worker (recordEdges hops st) w := by
  induction hops generalizing st with
  | nil => exact h
  | cons hop hops ih =>
    rw [DataFlow.recordEdges]
    split
    · exact ⟨h.visited_eq, h.queue_eq, h.nodes_eq, h.truncated_eq⟩
    · exact ih ⟨h.visited_eq, h.queue_eq, h.nodes_eq, h.truncated_eq⟩

theorem Records.visitNeighbors {st : Walked} {done : List (ℕ × ℕ)}
    (h : Records db direction maxDepth st done) (worker : Worker) (depth : ℕ) (next : List ℕ) :
    Records db direction maxDepth (visitNeighbors worker depth next st) done := by
  induction next generalizing st with
  | nil => exact h
  | cons y next ih =>
    rw [DataFlow.visitNeighbors]
    split
    · exact ⟨h.edges_eq, h.edgesTruncated_eq, h.xrefsTruncated_eq⟩
    · split
      · exact ih h
      · exact ih ⟨h.edges_eq, h.edgesTruncated_eq, h.xrefsTruncated_eq⟩

theorem Records.skip {st : Walked} {done : List (ℕ × ℕ)} (h : Records db direction maxDepth st done)
    {x d : ℕ} (hd : d ≥ maxDepth) : Records db direction maxDepth st (done ++ [(x, d)]) := by
  have hfilter : (done ++ [(x, d)]).filter (·.2 < maxDepth) = done.filter (·.2 < maxDepth) := by
    rw [List.filter_append, List.filter_cons_of_neg (by simpa using hd), List.filter_nil,
      List.append_nil]
  constructor
  · rw [allEdges, hfilter]
    exact h.edges_eq
  · rw [allEdges, hfilter]
    exact h.edgesTruncated_eq
  · rw [hfilter]
    exact h.xrefsTruncated_eq

/- The references of a page are recorded behind those that were there. -/
theorem Records.expand {st : Walked} {done : List (ℕ × ℕ)}
    (h : Records db direction maxDepth st done) {x d : ℕ} (hd : d < maxDepth) :
    Records db direction maxDepth (recordEdges ((shownRefs db direction x).map XRef.edge)
        { st with
          xrefsTruncated := st.xrefsTruncated ||
            decide (traceXrefsPerNode < (refsOf db direction x).length) }) (done ++ [(x, d)]) := by
  have hfilter : (done ++ [(x, d)]).filter (·.2 < maxDepth) =
      done.filter (·.2 < maxDepth) ++ [(x, d)] := by
    rw [List.filter_append, List.filter_cons_of_pos (by simpa using hd), List.filter_nil]
  have hall : allEdges db direction maxDepth (done ++ [(x, d)]) =
      allEdges db direction maxDepth done ++ (shownRefs db direction x).map XRef.edge := by
    rw [allEdges, hfilter, List.flatMap_append, List.flatMap_singleton, allEdges]
  have hlen : st.edges.length = min traceMaxEdges (allEdges db direction maxDepth done).length := by
    rw [h.edges_eq, List.length_map, List.length_take]
  have hroom : st.edges.length ≤ traceMaxEdges := by omega
  rw [recordEdges_eq]
  · constructor
    · simp only [hall, h.edges_eq]
      rw [← List.map_append, ← List.map_take, List.take_append, List.take_append, List.take_take,
        Nat.min_self, List.length_take]
      congr 3
      omega
    · simp only [hall, h.edgesTruncated_eq, hlen, List.length_append, ← Bool.decide_or,
        decide_eq_decide]
      omega
    · simp only [hfilter, h.xrefsTruncated_eq, List.any_append, List.any_cons, List.any_nil,
        Bool.or_false]
  · exact hroom

/-! ### The loop takes the turns of a walk -/

end IdaHeadless.DataFlow
