import IdaHeadless.Address.Lists
import IdaHeadless.ControlFlow.Callers
import IdaHeadless.Grouping
import IdaHeadless.Xrefs
import Mathlib.Algebra.GroupWithZero.Nat
import Mathlib.Data.Char
import Mathlib.Data.List.Lex

/-!
# Components (server/tools/composite.rs)

`analyze_component` resolves its tokens to functions, asks the worker about each of them, and
joins the answers: who calls whom inside the component, which functions are called from outside,
and which globals and strings several functions share. Whether an address is a global is asked
once and then remembered.
-/

namespace IdaHeadless.Composite

open Address Xrefs Grouping
open ControlFlow (FunctionInfo)

abbrev Text := List Char

def maxAnalyzeTargets : ℕ := 32
def maxAnalyzeStrings : ℕ := 5000
def analyzeStringXrefCap : ℕ := 256
def maxComponentStrings : ℕ := 5
def maxComponentDataXrefs : ℕ := 256

/-! ### The worker -/

structure FunctionRangeInfo where
  address : String
  name : Text
  start : String
  stop : String
  size : ℕ

structure BasicBlockInfo where
  start : String
  successors : List String

structure StringXrefInfo where
  address : String
  content : Text
  length : ℕ
  xrefs : List String

structure StringIndex where
  strings : List StringXrefInfo
  total : ℕ

structure SymbolInfo where
  name : Text
  exact : Bool

/-- What the composite tools ask of the worker. The database does not change during a call. -/
structure Worker where
  functionAt : Option ℕ → Option Text → Except ToolError FunctionRangeInfo
  callees : ℕ → Except ToolError (List FunctionInfo)
  callers : ℕ → Except ToolError (List FunctionInfo)
  basicBlocks : ℕ → Except ToolError (List BasicBlockInfo)
  xrefsFrom : ℕ → XrefQuery → Except ToolError XRefListResult
  xrefsToString : ℕ → ℕ → Except ToolError StringIndex
  symbolAt : ℕ → Except ToolError (Option SymbolInfo)

/-! ### The members -/

structure Resolved where
  start : ℕ
  stop : ℕ
  range : FunctionRangeInfo

/- `quoted` is the text of a token under `{:?}`. -/
def resolveToken (quoted : Text → String) (worker : Worker) (token : Text) :
    Except ToolError Resolved :=
  let range := match parseAddress token with
    | .ok addr => worker.functionAt (some addr) none
    | .error _ => worker.functionAt none (some token)
  let failed := ToolError.invalidParams ("Cannot resolve address: " ++ quoted token)
  match range with
  | .error _ => .error failed
  | .ok range =>
    match parseAddress range.start.toList with
    | .error _ => .error failed
    | .ok start => .ok ⟨start, (parseAddress range.stop.toList).toOption.getD start, range⟩

/- A function that another token named already is passed over. -/
def resolveAll (quoted : Text → String) (worker : Worker) :
    List Text → List Resolved → Except ToolError (List Resolved)
  | [], resolved => .ok resolved
  | token :: rest, resolved => do
    let r ← resolveToken quoted worker token
    if r.start ∈ resolved.map Resolved.start then resolveAll quoted worker rest resolved
    else resolveAll quoted worker rest (resolved ++ [r])

/-! ### The globals of a function -/

def xrefSites (start : ℕ) (blocks : List BasicBlockInfo) : List ℕ :=
  blocks.foldl (fun sites block =>
    match parseAddress block.start.toList with
    | .ok blockStart =>
      if blockStart ≠ start ∧ blockStart ∉ sites then sites ++ [blockStart] else sites
    | .error _ => sites) [start]

/-- A target is a global unless it lies in the function that is found there. -/
def classify (worker : Worker) (target : ℕ) : Bool :=
  match worker.functionAt (some target) none with
  | .ok owner =>
    match parseAddress owner.start.toList, parseAddress owner.stop.toList with
    | .ok ownerStart, .ok ownerStop => target < ownerStart ∨ target ≥ ownerStop
    | _, _ => true
  | .error _ => true

/-- `globalClass` is kept from function to function. -/
structure SiteWalk where
  globals : Finset ℕ
  globalClass : List (ℕ × Bool)
  truncated : Bool

def visitTarget (worker : Worker) (st : SiteWalk) (target : ℕ) : SiteWalk :=
  match st.globalClass.lookup target with
  | some known => if known then { st with globals := insert target st.globals } else st
  | none =>
    let classified := classify worker target
    let st := { st with globalClass := (target, classified) :: st.globalClass }
    if classified then { st with globals := insert target st.globals } else st

def visitXref (worker : Worker) (st : SiteWalk) (xref : XRefInfo) : SiteWalk :=
  if xref.isCode then st
  else
    match parseAddress xref.target.toList with
    | .ok target => visitTarget worker st target
    | .error _ => st

def visitSite (worker : Worker) (st : SiteWalk) (site : ℕ) : SiteWalk :=
  match worker.xrefsFrom site (.paged 0 maxComponentDataXrefs) with
  | .ok page =>
    page.xrefs.foldl (visitXref worker) { st with truncated := st.truncated || page.truncated }
  | .error _ => st

/-! ### The functions -/

structure ComponentFn where
  start : ℕ
  name : Text
  size : ℕ
  callees : List FunctionInfo
  callers : List FunctionInfo
  blocks : List BasicBlockInfo
  allStrings : List Text
  globals : Finset ℕ

structure Gathered where
  analyzed : List ComponentFn
  dataXrefsTruncated : Bool
  globalClass : List (ℕ × Bool)

def StringXrefInfo.usedIn (string : StringXrefInfo) (start stop : ℕ) : Bool :=
  string.xrefs.any fun xref =>
    match parseAddress xref.toList with
    | .ok source => start ≤ source ∧ source < stop
    | .error _ => false

def stringsOf (index : Option StringIndex) (start stop : ℕ) : List Text :=
  index.elim [] fun index =>
    (index.strings.filter (·.usedIn start stop)).map StringXrefInfo.content

/- What the worker cannot say is taken for empty. -/
def analyzeOne (worker : Worker) (index : Option StringIndex) (g : Gathered) (r : Resolved) :
    Gathered :=
  let blocks := (worker.basicBlocks r.start).toOption.getD []
  let walked := (xrefSites r.start blocks).foldl (visitSite worker)
    ⟨∅, g.globalClass, g.dataXrefsTruncated⟩
  ⟨g.analyzed ++ [{
      start := r.start
      name := r.range.name
      size := r.range.size
      callees := (worker.callees r.start).toOption.getD []
      callers := (worker.callers r.start).toOption.getD []
      blocks := blocks
      allStrings := stringsOf index r.start r.stop
      globals := walked.globals }],
    walked.truncated, walked.globalClass⟩

/-! ### The answer -/

structure ComponentCallee where
  addr : String
  name : Text

structure ComponentFunctionSummary where
  addr : String
  name : Text
  size : ℕ
  callees : List ComponentCallee
  strings : List Text
  basicBlocks : ℕ
  complexity : ℕ

structure ComponentCallEdge where
  source : String
  target : String
  name : Text
  deriving DecidableEq

structure ComponentCallGraph where
  nodes : List String
  edges : List ComponentCallEdge

structure SharedGlobal where
  addr : String
  name : Text
  accessedBy : List Text
  deriving DecidableEq

structure AnalyzeComponentLimits where
  maxTargets : ℕ
  targetsAnalyzed : ℕ
  targetsTruncated : Bool
  maxStringsPerFunction : ℕ
  maxStringsScanned : ℕ
  stringsScanned : ℕ
  stringsTruncated : Bool
  stringsError : Option String
  maxDataXrefsPerSite : ℕ
  dataXrefsTruncated : Bool

structure AnalyzeComponentOutput where
  functions : List ComponentFunctionSummary
  internalCallGraph : ComponentCallGraph
  sharedGlobals : List SharedGlobal
  interfaceFunctions : List String
  internalOnly : List String
  stringUsage : List (Text × List Text)
  limits : AnalyzeComponentLimits

def componentInternalCallGraph (componentStarts : List ℕ) (callees : List (ℕ × ℕ × Text)) :
    ComponentCallGraph :=
  ⟨componentStarts.map hexAddr,
    (callees.filter fun c => c.1 ∈ componentStarts ∧ c.2.1 ∈ componentStarts).map
      fun c => ⟨hexAddr c.1, hexAddr c.2.1, c.2.2⟩⟩

/-- The first `limit` distinct values that are not empty. `out` has what was seen. -/
def compactComponentStrings (limit : ℕ) : List Text → List Text → List Text
  | [], out => out
  | value :: rest, out =>
    if value = [] ∨ out.contains value then compactComponentStrings limit rest out
    else if (out ++ [value]).length ≥ limit then out ++ [value]
    else compactComponentStrings limit rest (out ++ [value])

/- `saturating_add` and `saturating_sub`; `usize` holds the length of a list and two more. -/
def cyclomaticComplexity (nodeCount edgeCount : ℕ) : ℕ :=
  if nodeCount = 0 then 0 else edgeCount + 2 - nodeCount

def callRefs (func : ComponentFn) : List (ℕ × ℕ × Text) :=
  func.callees.filterMap fun callee =>
    (parseAddress callee.address.toList).toOption.map fun target =>
      (func.start, target, callee.name)

def hasExternal (componentStarts : List ℕ) (func : ComponentFn) : Bool :=
  func.callers.any fun caller =>
    match parseAddress caller.address.toList with
    | .ok callerAddr => callerAddr ∉ componentStarts
    | .error _ => true

def ComponentFn.summary (func : ComponentFn) : ComponentFunctionSummary where
  addr := hexAddr func.start
  name := func.name
  size := func.size
  callees := func.callees.map fun callee => ⟨callee.address, callee.name⟩
  strings := compactComponentStrings maxComponentStrings func.allStrings []
  basicBlocks := func.blocks.length
  complexity := cyclomaticComplexity func.blocks.length
    (func.blocks.map (·.successors.length)).sum

def stringUses (func : ComponentFn) : List (Text × Text) :=
  (func.allStrings.filter (· ≠ [])).map fun content => (content, func.name)

def globalUses (func : ComponentFn) : List (ℕ × Text) :=
  func.globals.sort.map fun addr => (addr, func.name)

/-- The keys that two names or more stand under. -/
def shared {κ : Type} [LinearOrder κ] (uses : List (κ × Text)) : List (κ × Finset Text) :=
  (groupBy insertValue uses).filter fun e => 2 ≤ e.2.card

def globalName (worker : Worker) (addr : ℕ) : Text :=
  match worker.symbolAt addr with
  | .ok symbol => ((symbol.filter SymbolInfo.exact).map SymbolInfo.name).getD (hexAddr addr).toList
  | .error _ => (hexAddr addr).toList

def stringScan (worker : Worker) : Except ToolError StringIndex :=
  worker.xrefsToString maxAnalyzeStrings analyzeStringXrefCap

def componentOutput (worker : Worker) (resolved : List Resolved) : AnalyzeComponentOutput :=
  let members := resolved.take maxAnalyzeTargets
  let componentStarts := members.map Resolved.start
  let index := (stringScan worker).toOption
  let gathered := members.foldl (analyzeOne worker index) ⟨[], false, []⟩
  let addrsWhere (p : ComponentFn → Bool) :=
    (gathered.analyzed.filter p).map fun func => hexAddr func.start
  { functions := gathered.analyzed.map ComponentFn.summary
    internalCallGraph :=
      componentInternalCallGraph componentStarts (gathered.analyzed.flatMap callRefs)
    sharedGlobals := (shared (gathered.analyzed.flatMap globalUses)).map fun e =>
      ⟨hexAddr e.1, globalName worker e.1, e.2.sort⟩
    interfaceFunctions := addrsWhere (hasExternal componentStarts)
    internalOnly := addrsWhere fun func => !hasExternal componentStarts func
    stringUsage := (shared (gathered.analyzed.flatMap stringUses)).map fun e => (e.1, e.2.sort)
    limits := {
      maxTargets := maxAnalyzeTargets
      targetsAnalyzed := gathered.analyzed.length
      targetsTruncated := maxAnalyzeTargets < resolved.length
      maxStringsPerFunction := maxComponentStrings
      maxStringsScanned := maxAnalyzeStrings
      stringsScanned := index.elim 0 (·.strings.length)
      stringsTruncated := index.any fun index => index.strings.length < index.total
      stringsError := match stringScan worker with
        | .ok _ => none
        | .error error => some error.display
      maxDataXrefsPerSite := maxComponentDataXrefs
      dataXrefsTruncated := gathered.dataXrefsTruncated } }

def analyzeComponent (quoted : Text → String) (json : JsonReader) (worker : Worker)
    (addrs : Option Payload.Value) : Except ToolError AnalyzeComponentOutput :=
  match addrs with
  | none =>
    .error (.invalidParams "analyze_component needs addrs (function names or addresses)")
  | some value => do
    let tokens ← valueToStrings json value
    if tokens = [] then .error (.invalidParams "Empty address list")
    else
      let resolved ← resolveAll quoted worker tokens []
      .ok (componentOutput worker resolved)

end IdaHeadless.Composite
