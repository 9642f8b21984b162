import IdaHeadless.Address
import IdaHeadless.BoundedWalk
import IdaHeadless.Unseen

/-!
# Call graphs (handlers/controlflow.rs)

The callees of a function are found at the addresses of its body. The call graph is walked
breadth first from the root. Every call of a visited function is an edge, and a callee becomes a
node while there is room.
-/

namespace IdaHeadless.ControlFlow

open BoundedWalk Address Unseen

/-! ### The database -/

inductive CodeRef where
  | unknown | farCall | nearCall | farJump | nearJump | user | flow
  deriving DecidableEq

inductive XRefType where
  | code (ref : CodeRef)
  | data
  deriving DecidableEq

structure CallXref where
  target : ℕ
  type : XRefType
  target_lt : target < 2 ^ 64

inductive OperandType where
  | void | reg | mem | phrase | displ | imm | far | near | idpSpec
  deriving DecidableEq

structure Operand where
  type : OperandType
  address : Option ℕ
  address_lt : ∀ addr ∈ address, addr < 2 ^ 64

structure Insn where
  isCall : Bool
  operands : List (Option Operand)
  len : ℕ

structure CallFunction where
  startAddress : ℕ
  endAddress : ℕ
  name : Option (List Char)
  len : ℕ
  start_lt : startAddress < 2 ^ 64
  end_lt : endAddress < 2 ^ 64

/-- What the call graph reads of a database. -/
structure CallIdb where
  functionAt : ℕ → Option CallFunction
  xrefsFrom : ℕ → List CallXref
  insnAt : ℕ → Option Insn
  nextHead : ℕ → Option ℕ
  addressToString : ℕ → Option (List Char)

/-! ### The callees of a function -/

structure FunctionInfo where
  address : String
  name : List Char
  size : ℕ
  deriving DecidableEq

/-- The vector of callees, and the set of the addresses that are in it. -/
structure Callees where
  callees : List FunctionInfo
  seen : List ℕ

/- `sub_1000` stands in for a missing name. -/
def subName (addr : ℕ) : List Char := ['s', 'u', 'b', '_'] ++ Nat.toDigits 16 addr

def CallFunction.info (func : CallFunction) : FunctionInfo :=
  ⟨hexAddr func.startAddress, func.name.getD (subName func.startAddress), func.len⟩

def Callees.insert (st : Callees) (addr : ℕ) (info : FunctionInfo) : Callees :=
  if addr ∈ st.seen then st else ⟨st.callees ++ [info], st.seen ++ [addr]⟩

def addCallee (db : CallIdb) (st : Callees) (target : ℕ) : Callees :=
  match db.functionAt target with
  | some func => st.insert func.startAddress func.info
  | none => st.insert target ⟨hexAddr target, (db.addressToString target).getD (subName target), 0⟩

def isDirectBranchOperand : OperandType → Bool
  | .near | .far => true
  | _ => false

def directCallTarget (db : CallIdb) (addr : ℕ) : Option ℕ :=
  (db.insnAt addr).bind fun insn =>
    if insn.isCall then
      insn.operands.findSome? fun op => op.bind fun op =>
        if isDirectBranchOperand op.type then op.address else none
    else none

def XRefType.isCall : XRefType → Bool
  | .code .nearCall | .code .farCall => true
  | _ => false

def CallXref.isCall (xref : CallXref) : Bool := xref.type.isCall

/-- The body of the loop up to the step: the call references, else the operand. -/
def visitSite (db : CallIdb) (addr : ℕ) (st : Callees) : Callees :=
  let walked := (db.xrefsFrom addr).foldl
    (fun p xref => if xref.isCall then (addCallee db p.1 xref.target, true) else p) (st, false)
  if walked.2 then walked.1 else (directCallTarget db addr).elim walked.1 (addCallee db walked.1)

/- `u64::saturating_add`. -/
def nextSite (db : CallIdb) (addr : ℕ) : Option ℕ :=
  match db.insnAt addr with
  | some insn =>
    let next := min (addr + insn.len) (2 ^ 64 - 1)
    if next ≤ addr then none else some next
  | none =>
    match db.nextHead addr with
    | some next => if next ≤ addr then none else some next
    | none => none

def calleesLoop (db : CallIdb) (stop : ℕ) : ℕ → ℕ → Callees → Option Callees
  | 0, _, _ => none
  | fuel + 1, addr, st =>
    if addr < stop then
      let st := visitSite db addr st
      (nextSite db addr).elim (some st) fun next => calleesLoop db stop fuel next st
    else some st

def handleCallees (fuel : ℕ) (idb : Option CallIdb) (addr : ℕ) :
    Option (Except ToolError (List FunctionInfo)) :=
  match idb with
  | none => some (.error .noDatabaseOpen)
  | some db =>
    match db.functionAt addr with
    | none => some (.error (.functionNotFound addr))
    | some func =>
      (calleesLoop db func.endAddress fuel func.startAddress ⟨[], []⟩).map fun st => .ok st.callees

/-! ### The walk -/

/-- The map of the nodes, with its keys in the order in which they came in. -/
structure Graph where
  nodes : List (ℕ × FunctionInfo)
  edges : List (ℕ × ℕ)
  queue : List (ℕ × ℕ)

structure CallGraphResult where
  nodes : List FunctionInfo
  edges : List (String × String)

def visitCallee (curAddr depth maxNodes : ℕ) (graph : Graph) (callee : FunctionInfo) : Graph :=
  match parseAddress callee.address.toList with
  | .error _ => graph
  | .ok targetAddr =>
    let graph := { graph with edges := graph.edges ++ [(curAddr, targetAddr)] }
    if targetAddr ∉ graph.nodes.map Prod.fst ∧ graph.nodes.length < maxNodes then
      { graph with
        nodes := graph.nodes ++ [(targetAddr, callee)]
        queue := graph.queue ++ [(targetAddr, depth + 1)] }
    else graph

def callgraphBody (fuel : ℕ) (idb : Option CallIdb) (maxDepth maxNodes : ℕ) (graph : Graph) :
    Option (Graph ⊕ Graph) :=
  match graph.queue with
  | [] => some (.inr graph)
  | (curAddr, depth) :: queue =>
    if depth ≥ maxDepth then some (.inl { graph with queue := queue })
    else if graph.nodes.length ≥ maxNodes then some (.inr graph)
    else (handleCallees fuel idb curAddr).map fun callees =>
      .inl ((callees.toOption.getD []).foldl (visitCallee curAddr depth maxNodes)
        { graph with queue := queue })

def handleCallgraph (fuel : ℕ) (idb : Option CallIdb) (addr maxDepth maxNodes : ℕ) :
    Option (Except ToolError CallGraphResult) :=
  match idb with
  | none => some (.error .noDatabaseOpen)
  | some db =>
    match db.functionAt addr with
    | none => some (.error (.functionNotFound addr))
    | some root =>
      (loop (callgraphBody fuel idb (max maxDepth 1) (max maxNodes 1)) fuel
        ⟨[(root.startAddress, root.info)], [], [(root.startAddress, 0)]⟩).map fun graph =>
          .ok ⟨graph.nodes.map Prod.snd,
            graph.edges.map fun edge => (hexAddr edge.1, hexAddr edge.2)⟩

/-! ### The calls of a function -/

variable {db : CallIdb} {addr stop : ℕ}

/-- The calls at an address: its call references, else the operand that names a target. -/
def targetsAt (db : CallIdb) (addr : ℕ) : List ℕ :=
  let calls := ((db.xrefsFrom addr).filter CallXref.isCall).map CallXref.target
  if calls = [] then (directCallTarget db addr).toList else calls

def sitesFrom (db : CallIdb) (stop : ℕ) : ℕ → ℕ → List ℕ
  | 0, _ => []
  | fuel + 1, addr => if addr < stop then
      addr :: (nextSite db addr).elim [] (sitesFrom db stop fuel)
    else []

/-- Where the function that contains the target begins. -/
def entryOf (db : CallIdb) (target : ℕ) : ℕ :=
  (db.functionAt target).elim target CallFunction.startAddress

/-- The entries that a function calls, as often as it does. -/
def callsOf (db : CallIdb) (addr : ℕ) : List ℕ :=
  (db.functionAt addr).elim [] fun func =>
    ((sitesFrom db func.endAddress (func.endAddress - func.startAddress + 1)
      func.startAddress).flatMap (targetsAt db)).map (entryOf db)

def calleesOf (db : CallIdb) (addr : ℕ) : List ℕ := (callsOf db addr).eraseDups

/- What a function calls stands once among its callees. -/
theorem calleesOf_spec (db : CallIdb) (addr : ℕ) :
    (calleesOf db addr).Nodup ∧ ∀ x, x ∈ calleesOf db addr ↔ x ∈ callsOf db addr :=
  ⟨nodup_eraseDups _, fun _ => List.mem_eraseDups⟩

theorem directCallTarget_lt {target : ℕ} (h : directCallTarget db addr = some target) :
    target < 2 ^ 64 := by
  obtain ⟨insn, -, hinsn⟩ := Option.bind_eq_some_iff.mp h
  split at hinsn
  · obtain ⟨op, -, hop⟩ := List.exists_of_findSome?_eq_some hinsn
    obtain ⟨op, -, hop⟩ := Option.bind_eq_some_iff.mp hop
    split at hop
    · exact op.address_lt target hop
    · cases hop
  · cases hinsn

theorem targetsAt_lt {target : ℕ} (h : target ∈ targetsAt db addr) : target < 2 ^ 64 := by
  simp only [targetsAt] at h
  split at h
  · exact directCallTarget_lt (Option.mem_toList.mp h)
  · obtain ⟨xref, -, rfl⟩ := List.mem_map.mp h
    exact xref.target_lt

theorem calleesOf_lt {entry : ℕ} (h : entry ∈ calleesOf db addr) : entry < 2 ^ 64 := by
  have hcall := ((calleesOf_spec db addr).2 entry).mp h
  rw [callsOf] at hcall
  cases hfunc : db.functionAt addr with
  | none =>
    rw [hfunc] at hcall
    cases hcall
  | some func =>
    rw [hfunc, Option.elim_some] at hcall
    obtain ⟨target, htarget, rfl⟩ := List.mem_map.mp hcall
    obtain ⟨site, -, hsite⟩ := List.mem_flatMap.mp htarget
    rw [entryOf]
    cases db.functionAt target with
    | none => exact targetsAt_lt hsite
    | some callee => exact callee.start_lt

/-! ### The handler finds the callees -/

theorem insert_seen (st : Callees) (addr : ℕ) (info : FunctionInfo) :
    (st.insert addr info).seen = insertNew st.seen addr := by
  rw [Callees.insert, apply_ite Callees.seen, insertNew]

/- The vector and the set have the same addresses. -/
theorem insert_addresses {st : Callees}
    (h : st.callees.map FunctionInfo.address = st.seen.map hexAddr) {addr : ℕ} {info : FunctionInfo}
    (hinfo : info.address = hexAddr addr) :
    (st.insert addr info).callees.map FunctionInfo.address =
      (st.insert addr info).seen.map hexAddr := by
  rw [Callees.insert]
  split
  · exact h
  · simp [h, hinfo]

theorem addCallee_eq (db : CallIdb) (target : ℕ) :
    ∃ info : FunctionInfo, info.address = hexAddr (entryOf db target) ∧
      ∀ st, addCallee db st target = st.insert (entryOf db target) info := by
  simp only [addCallee, entryOf]
  cases db.functionAt target with
  | none => exact ⟨_, rfl, fun _ => rfl⟩
  | some func => exact ⟨_, rfl, fun _ => rfl⟩

theorem foldl_addCallee (db : CallIdb) (targets : List ℕ) (st : Callees)
    (h : st.callees.map FunctionInfo.address = st.seen.map hexAddr) :
    (targets.foldl (addCallee db) st).callees.map FunctionInfo.address =
      ((targets.map (entryOf db)).foldl insertNew st.seen).map hexAddr := by
  induction targets generalizing st with
  | nil => exact h
  | cons target targets ih =>
    obtain ⟨info, hinfo, hadd⟩ := addCallee_eq db target
    rw [List.foldl_cons, hadd, ih _ (insert_addresses h hinfo), insert_seen]
    rfl

theorem visitSite_eq (addr : ℕ) (st : Callees) :
    visitSite db addr st = (targetsAt db addr).foldl (addCallee db) st := by
  have hwalk : ∀ (xrefs : List CallXref) (st : Callees) (found : Bool),
      xrefs.foldl (fun p xref =>
          if xref.isCall then (addCallee db p.1 xref.target, true) else p) (st, found) =
        (((xrefs.filter CallXref.isCall).map CallXref.target).foldl (addCallee db) st,
          found || decide ((xrefs.filter CallXref.isCall).map CallXref.target ≠ [])) := by
    intro xrefs
    induction xrefs with
    | nil => simp
    | cons xref xrefs ih =>
      intro st found
      rw [List.foldl_cons]
      by_cases hcall : xref.isCall = true
      · rw [if_pos hcall, ih, List.filter_cons_of_pos hcall]
        simp
      · rw [if_neg hcall, ih, List.filter_cons_of_neg hcall]
  simp only [visitSite, hwalk, targetsAt, Bool.false_or, decide_eq_true_eq, ne_eq]
  by_cases hnone : ((db.xrefsFrom addr).filter CallXref.isCall).map CallXref.target = []
  · rw [if_neg (not_not.mpr hnone), if_pos hnone, hnone]
    cases directCallTarget db addr with
    | none => rfl
    | some target => rfl
  · rw [if_pos hnone, if_neg hnone]

theorem nextSite_lt {next : ℕ} (h : nextSite db addr = some next) : addr < next := by
  rw [nextSite] at h
  grind

/- Each step goes up, so the loop ends before the end of the function. -/
theorem calleesLoop_eq (fuel fuel' addr : ℕ) (st : Callees) (hfuel : stop - addr < fuel)
    (hfuel' : stop - addr < fuel') :
    calleesLoop db stop fuel addr st =
      some (((sitesFrom db stop fuel' addr).flatMap (targetsAt db)).foldl (addCallee db) st) := by
  induction fuel generalizing fuel' addr st with
  | zero => omega
  | succ fuel ih =>
    obtain ⟨fuel', rfl⟩ : ∃ k, fuel' = k + 1 := ⟨fuel' - 1, by omega⟩
    rw [calleesLoop, sitesFrom]
    by_cases hlt : addr < stop
    · simp only [if_pos hlt, List.flatMap_cons, List.foldl_append, ← visitSite_eq]
      cases hnext : nextSite db addr with
      | none => rfl
      | some next =>
        have hup := nextSite_lt hnext
        exact ih fuel' next _ (by omega) (by omega)
    · rw [if_neg hlt, if_neg hlt]
      rfl

theorem handleCallees_fuel (db : CallIdb) (addr : ℕ) {fuel : ℕ} (hfuel : 2 ^ 64 ≤ fuel) :
    handleCallees fuel (some db) addr = handleCallees (2 ^ 64) (some db) addr := by
  simp only [handleCallees]
  cases db.functionAt addr with
  | none => rfl
  | some func =>
    have hend := func.end_lt
    simp only
    rw [calleesLoop_eq fuel (2 ^ 64) _ _ (by omega) (by omega),
      calleesLoop_eq (2 ^ 64) (2 ^ 64) _ _ (by omega) (by omega)]

/- What the call graph makes of the callees. -/
theorem handleCallees_eq (db : CallIdb) (addr : ℕ) :
    ∃ infos : List FunctionInfo, infos.map FunctionInfo.address = (calleesOf db addr).map hexAddr ∧
      (handleCallees (2 ^ 64) (some db) addr).map (fun callees => callees.toOption.getD []) =
        some infos := by
  rw [calleesOf, callsOf]
  cases hfunc : db.functionAt addr with
  | none =>
    refine ⟨[], rfl, ?_⟩
    simp only [handleCallees, hfunc]
    rfl
  | some func =>
    have haddrs := foldl_addCallee db ((sitesFrom db func.endAddress
      (func.endAddress - func.startAddress + 1) func.startAddress).flatMap (targetsAt db))
      ⟨[], []⟩ rfl
    rw [Option.elim_some]
    refine ⟨_, haddrs.trans (congrArg _ (foldl_insertNew_nil _)), ?_⟩
    have hend := func.end_lt
    simp only [handleCallees, hfunc]
    rw [calleesLoop_eq (2 ^ 64) (func.endAddress - func.startAddress + 1) _ _ (by omega) (by omega)]
    rfl

/-! ### The loop takes the turns of a walk -/

variable {maxDepth maxNodes : ℕ}

/-- The nodes and the queue of the graph are those of the walk. -/
structure Tracks (graph : Graph) (w : Walk ℕ) : Prop where
  queue_eq : graph.queue = w.queue
  keys_eq : graph.nodes.map Prod.fst = w.seen
  infos_eq : graph.nodes.map (·.2.address) = w.seen.map hexAddr

/-- The calls of the nodes that were expanded. -/
def callEdges (db : CallIdb) (maxDepth : ℕ) (done : List (ℕ × ℕ)) : List (ℕ × ℕ) :=
  (done.filter (·.2 < maxDepth)).flatMap fun p => (calleesOf db p.1).map fun y => (p.1, y)

theorem Tracks.length_eq {graph : Graph} {w : Walk ℕ} (h : Tracks graph w) :
    graph.nodes.length = w.nodes.length := by
  have hlen := congrArg List.length h.keys_eq
  rwa [List.length_map, Walk.seen, List.length_map] at hlen

/- A callee is an edge in any case and a node where the walk lets it in. -/
theorem visitCallee_tracks {graph : Graph} {w : Walk ℕ} (h : Tracks graph w)
    (curAddr depth maxNodes : ℕ) {callee : FunctionInfo} {y : ℕ} (hy : y < 2 ^ 64)
    (hcallee : callee.address = hexAddr y) :
    Tracks (visitCallee curAddr depth maxNodes graph callee) (w.offer maxNodes (depth + 1) y) ∧
      (visitCallee curAddr depth maxNodes graph callee).edges = graph.edges ++ [(curAddr, y)] := by
  rw [visitCallee, hcallee, parseAddress_hexAddr hy]
  simp only [h.keys_eq, h.length_eq, Walk.offer]
  by_cases hseen : y ∈ w.seen
  · simp only [hseen, not_true_eq_false, false_and, if_true, if_false]
    exact ⟨⟨h.queue_eq, h.keys_eq, h.infos_eq⟩, trivial⟩
  · by_cases hroom : w.nodes.length < maxNodes
    · simp only [hseen, hroom, not_false_eq_true, and_self, if_true, if_false]
      refine ⟨⟨?_, ?_, ?_⟩, trivial⟩
      · simp only [h.queue_eq]
      · simp only [List.map_append, h.keys_eq, Walk.seen, Walk.nodes, List.append_assoc,
          List.map_cons, List.map_nil]
      · simp only [List.map_append, h.infos_eq, hcallee, Walk.seen, Walk.nodes, List.append_assoc,
          List.map_cons, List.map_nil]
    · simp only [hseen, hroom, and_false, if_false]
      exact ⟨⟨h.queue_eq, h.keys_eq, h.infos_eq⟩, trivial⟩

theorem foldl_visitCallee (curAddr depth maxNodes : ℕ) (ys : List ℕ) (hys : ∀ y ∈ ys, y < 2 ^ 64)
    {infos : List FunctionInfo} (hinfos : infos.map FunctionInfo.address = ys.map hexAddr)
    {graph : Graph} {w : Walk ℕ} (h : Tracks graph w) :
    Tracks (infos.foldl (visitCallee curAddr depth maxNodes) graph)
        (ys.foldl (Walk.offer maxNodes (depth + 1)) w) ∧
      (infos.foldl (visitCallee curAddr depth maxNodes) graph).edges =
        graph.edges ++ ys.map fun y => (curAddr, y) := by
  induction ys generalizing infos graph w with
  | nil =>
    rw [List.map_nil, List.map_eq_nil_iff] at hinfos
    subst hinfos
    exact ⟨h, by simp⟩
  | cons y ys ih =>
    cases infos with
    | nil => cases hinfos
    | cons info infos =>
      obtain ⟨hinfo, hrest⟩ := List.cons.inj hinfos
      obtain ⟨htracks, hedges⟩ :=
        visitCallee_tracks h curAddr depth maxNodes (hys y List.mem_cons_self) hinfo
      obtain ⟨htracks', hedges'⟩ := ih (fun z hz => hys z (List.mem_cons_of_mem y hz)) hrest htracks
      refine ⟨htracks', ?_⟩
      rw [List.foldl_cons, hedges', hedges, List.map_cons, List.append_assoc, List.singleton_append]

theorem callgraphBody_fuel (db : CallIdb) (maxDepth maxNodes : ℕ) {fuel : ℕ}
    (hfuel : 2 ^ 64 ≤ fuel) :
    callgraphBody fuel (some db) maxDepth maxNodes =
      callgraphBody (2 ^ 64) (some db) maxDepth maxNodes := by
  funext graph
  simp only [callgraphBody, handleCallees_fuel db _ hfuel]

theorem callgraphBody_turn {root : ℕ} {graph : Graph} {w : Walk ℕ}
    (hinv : Inv (calleesOf db) root maxDepth maxNodes w)
    (h : Tracks graph w ∧ graph.edges = callEdges db maxDepth w.done) :
    (w.queue ≠ [] ∧ ∃ graph',
        callgraphBody (2 ^ 64) (some db) maxDepth maxNodes graph = some (.inl graph') ∧
        Tracks graph' (w.turn (calleesOf db) maxDepth maxNodes) ∧
        graph'.edges = callEdges db maxDepth (w.turn (calleesOf db) maxDepth maxNodes).done) ∨
      ∃ graph', callgraphBody (2 ^ 64) (some db) maxDepth maxNodes graph = some (.inr graph') ∧
        Tracks graph' w ∧ graph'.edges = callEdges db maxDepth w.done ∧
        (w.queue = [] ∨ w.nodes.length = maxNodes) := by
  obtain ⟨htracks, hedges⟩ := h
  rw [callgraphBody, htracks.queue_eq, Walk.turn]
  cases hqueue : w.queue with
  | nil => exact .inr ⟨graph, rfl, htracks, hedges, .inl rfl⟩
  | cons front rest =>
    obtain ⟨x, d⟩ := front
    have hpopped : Tracks { graph with queue := rest }
        { w with done := w.done ++ [(x, d)], queue := rest } := by
      refine ⟨rfl, ?_, ?_⟩
      · rw [htracks.keys_eq]
        simp [Walk.seen, Walk.nodes, hqueue]
      · rw [htracks.infos_eq]
        simp [Walk.seen, Walk.nodes, hqueue]
    by_cases hd : d ≥ maxDepth
    · refine .inl ⟨List.cons_ne_nil _ _, { graph with queue := rest }, ?_, ?_, ?_⟩
      · simp only [if_pos hd]
      · simpa only [if_pos hd] using hpopped
      · simp only [if_pos hd, hedges, callEdges, List.filter_append]
        rw [List.filter_cons_of_neg (by simpa using hd), List.filter_nil, List.append_nil]
    · by_cases hfull : graph.nodes.length ≥ maxNodes
      · refine .inr ⟨graph, ?_, htracks, hedges, .inr ?_⟩
        · simp only [if_neg hd, if_pos hfull]
        · rw [htracks.length_eq] at hfull
          exact Nat.le_antisymm hinv.bound hfull
      · obtain ⟨infos, hinfos, hcallees⟩ := handleCallees_eq db x
        obtain ⟨htracks', hedges'⟩ := foldl_visitCallee x d maxNodes (calleesOf db x)
          (fun y hy => calleesOf_lt hy) hinfos hpopped
        obtain ⟨callees, hcalls, hlist⟩ := Option.map_eq_some_iff.mp hcallees
        refine .inl ⟨List.cons_ne_nil _ _,
          infos.foldl (visitCallee x d maxNodes) { graph with queue := rest }, ?_, ?_, ?_⟩
        · simp only [if_neg hd, if_neg hfull, hcalls, hlist, Option.map_some]
        · simpa only [if_neg hd] using htracks'
        · simp only [if_neg hd]
          rw [hedges', Walk.foldl_offer_done, hedges]
          simp only [callEdges, List.filter_append]
          rw [List.filter_cons_of_pos (by simpa using hd), List.filter_nil, List.flatMap_append,
            List.flatMap_singleton]

/-! ### The call closure -/

/-- The call graph is the closure of the root under calls, up to its depth and number of nodes. -/
theorem callgraph_closure (db : CallIdb) (addr maxDepth maxNodes : ℕ) (root : CallFunction)
    (hroot : db.functionAt addr = some root) :
    ∃ (answer : CallGraphResult) (nodes : List ℕ) (edges : List (ℕ × ℕ)),
      (∀ fuel ≥ max maxNodes 1 + 2 ^ 64,
        handleCallgraph fuel (some db) addr maxDepth maxNodes = some (.ok answer)) ∧
      answer.nodes.map FunctionInfo.address = nodes.map hexAddr ∧
      answer.edges = edges.map (fun edge => (hexAddr edge.1, hexAddr edge.2)) ∧
      nodes.Nodup ∧ nodes.length ≤ max maxNodes 1 ∧
      (∀ y ∈ nodes, ∃ k ≤ max maxDepth 1, StepsTo (calleesOf db) root.startAddress k y) ∧
      (∀ edge ∈ edges, edge.1 ∈ nodes ∧ edge.2 ∈ callsOf db edge.1 ∧
        (edge.2 ∈ nodes ∨ nodes.length = max maxNodes 1)) ∧
      (nodes.length < max maxNodes 1 →
        (∀ y, y ∈ nodes ↔ ∃ k ≤ max maxDepth 1, StepsTo (calleesOf db) root.startAddress k y) ∧
        ∃ expanded : List ℕ, expanded.Nodup ∧
          (∀ x, x ∈ expanded ↔
            ∃ k < max maxDepth 1, StepsTo (calleesOf db) root.startAddress k x) ∧
          edges = expanded.flatMap fun x => (calleesOf db x).map fun y => (x, y)) := by
  obtain ⟨depth, hdepth⟩ : ∃ depth, depth = max maxDepth 1 := ⟨_, rfl⟩
  obtain ⟨cap, hcap⟩ : ∃ cap, cap = max maxNodes 1 := ⟨_, rfl⟩
  rw [← hdepth, ← hcap]
  have hstart : Inv (calleesOf db) root.startAddress depth cap (.start root.startAddress) :=
    Inv.start (by omega)
  have htracks : Tracks ⟨[(root.startAddress, root.info)], [], [(root.startAddress, 0)]⟩
      (Walk.start root.startAddress) := ⟨rfl, rfl, rfl⟩
  obtain ⟨graph, w, hinv, ⟨htracks, hedges, hend⟩, hloop⟩ :=
    loop_ends (fun graph w => Tracks graph w ∧ graph.edges = callEdges db depth w.done)
      (fun graph w => Tracks graph w ∧ graph.edges = callEdges db depth w.done ∧
        (w.queue = [] ∨ w.nodes.length = cap))
      (fun graph w hinv h => callgraphBody_turn hinv h) hstart ⟨htracks, rfl⟩
  have hlen : w.seen.length = w.nodes.length := by rw [Walk.seen, List.length_map]
  obtain ⟨answer, hnodes, hrendered⟩ : ∃ answer : CallGraphResult,
      answer.nodes = graph.nodes.map Prod.snd ∧
        answer.edges = graph.edges.map fun edge => (hexAddr edge.1, hexAddr edge.2) :=
    ⟨⟨_, _⟩, rfl, rfl⟩
  rw [hedges] at hrendered
  refine ⟨answer, w.seen, callEdges db depth w.done, fun fuel hfuel => ?_, ?_, hrendered,
    hinv.nodup, ?_, ?_, ?_, ?_⟩
  · simp only [handleCallgraph, hroot, ← hdepth, ← hcap]
    rw [callgraphBody_fuel db depth cap (by omega), hloop fuel (by omega), Option.map_some, hedges,
      ← hnodes, ← hrendered]
  · rw [hnodes, List.map_map]
    exact htracks.infos_eq
  · rw [hlen]
    exact hinv.bound
  · intro y hy
    obtain ⟨e, he⟩ := Walk.mem_seen.mp hy
    exact ⟨e, hinv.depth_le (y, e) he, hinv.steps (y, e) he⟩
  · intro edge hedge
    obtain ⟨p, hp, hedge⟩ := List.mem_flatMap.mp hedge
    obtain ⟨y, hy, rfl⟩ := List.mem_map.mp hedge
    obtain ⟨hdone, hlt⟩ := List.mem_filter.mp hp
    refine ⟨Walk.mem_seen.mpr ⟨p.2, List.mem_append_left _ hdone⟩,
      ((calleesOf_spec db p.1).2 y).mp hy, ?_⟩
    cases hdropped : w.dropped with
    | true =>
      rw [hlen]
      exact .inr (hinv.missing hdropped).1
    | false =>
      obtain ⟨e, -, he⟩ := hinv.closed hdropped p hdone (of_decide_eq_true hlt) y hy
      exact .inl (Walk.mem_seen.mpr ⟨e, he⟩)
  · intro hroom
    rw [hlen] at hroom
    have hdropped : w.dropped = false := by
      by_contra hdropped
      have hfull := (hinv.missing (by simpa using hdropped)).1
      omega
    have hqueue : w.queue = [] := hend.resolve_right (Nat.ne_of_lt hroom)
    have hrefl : ∀ x, calleesOf db x ⊆ calleesOf db x := fun x => List.Subset.refl _
    refine ⟨hinv.within_iff hdropped hqueue hrefl fun p _ _ => hrefl p.1,
      (w.done.filter (·.2 < depth)).map Prod.fst, hinv.expanded_nodup,
      hinv.expanded_iff hdropped hqueue hrefl fun p _ _ => hrefl p.1, ?_⟩
    rw [callEdges, List.flatMap_map]

/-- Two functions that call each other, the first one twice. -/
def mutualCalls : CallIdb where
  functionAt addr :=
    if 16 ≤ addr ∧ addr < 20 then some ⟨16, 20, none, 4, by decide, by decide⟩
    else if 32 ≤ addr ∧ addr < 34 then some ⟨32, 34, none, 2, by decide, by decide⟩
    else none
  xrefsFrom addr :=
    if addr = 16 ∨ addr = 18 then [⟨32, .code .nearCall, by decide⟩]
    else if addr = 32 then [⟨17, .code .nearCall, by decide⟩]
    else []
  insnAt _ := some ⟨true, [], 2⟩
  nextHead _ := none
  addressToString _ := none

theorem callgraph_mutual_calls :
    ∃ (answer : CallGraphResult) (nodes : List ℕ),
      (∀ fuel ≥ 10 + 2 ^ 64, handleCallgraph fuel (some mutualCalls) 18 3 10 = some (.ok answer)) ∧
      answer.nodes.map FunctionInfo.address = nodes.map hexAddr ∧
      ∀ y ∈ nodes, ∃ k ≤ 3, StepsTo (calleesOf mutualCalls) 16 k y := by
  obtain ⟨answer, nodes, -, hanswer, hnodes, -, -, -, hsteps, -, -⟩ :=
    callgraph_closure mutualCalls 18 3 10 ⟨16, 20, none, 4, by decide, by decide⟩ rfl
  exact ⟨answer, nodes, hanswer, hnodes, hsteps⟩

end IdaHeadless.ControlFlow
