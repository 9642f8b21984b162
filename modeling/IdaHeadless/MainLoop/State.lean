import IdaHeadless.Runs
import IdaHeadless.ToolError

/-!
# The requests and the state of the worker loop (ida/main_loop.rs, ida/request.rs)

`run_ida_loop` owns the open database and serves one request after another. Its
local variables are the state below. What IDA answers inside an iteration, and when
a request's token is cancelled, comes from outside.
-/

namespace IdaHeadless.MainLoop

/- The variants of `IdaRequest` whose arm only runs a handler over the open database.
What they ask for is between the caller and the handler. -/
inductive Tool where
  | warmup | loadDebugInfo | dscLoadRegion | dscImages | dscImageDeps | dscFindSymbols
  | dscFindStrings | dscRegionAt | listFunctions | resolveFunction | disasmByName | disasm
  | decompile | segments | strings | localTypes | declareType | applyTypes | inferTypes
  | addrInfo | functionAt | disasmFunctionAt | declareStack | deleteStack | stackFrame | structs
  | structInfo | readStruct | xRefsTo | xRefsFrom | xRefsToField | imports | exports
  | entrypoints | luminaLookup | luminaApply | getBytes | addBookmark | sdkMutation | setComments
  | appendComment | rename | patchBytes | patchAsm | basicBlocks | callees | callers | idbMeta
  | lookupFunctions | listGlobals | analyzeStrings | findString | xrefsToString | findBytes
  | searchText | searchImm | findInsns | findInsnOperands | makeSignature | readInt | getInt
  | putInt | getString | getGlobalValue | findPaths | callGraph | xrefMatrix | exportFuncs
  | pseudocodeAt
  deriving DecidableEq

/- The name an arm gives to `crash_guarded`; four arms run their handler without it. -/
def Tool.operation : Tool → Option String
  | .warmup => some "handle_warmup"
  | .loadDebugInfo => some "handle_load_debug_info"
  | .dscLoadRegion => some "handle_dsc_load_region"
  | .dscImages => some "handle_dsc_images"
  | .dscImageDeps => some "handle_dsc_image_deps"
  | .dscFindSymbols => some "handle_dsc_find_symbols"
  | .dscFindStrings => some "handle_dsc_find_strings"
  | .dscRegionAt => some "handle_dsc_region_at"
  | .listFunctions => none
  | .resolveFunction => some "handle_resolve_function"
  | .disasmByName => some "handle_disasm_by_name"
  | .disasm => some "handle_disasm"
  | .decompile => some "handle_decompile"
  | .segments => some "handle_segments"
  | .strings => some "handle_strings"
  | .localTypes => some "handle_local_types"
  | .declareType => some "handle_declare_type"
  | .applyTypes => some "handle_apply_types"
  | .inferTypes => some "handle_infer_types"
  | .addrInfo => none
  | .functionAt => none
  | .disasmFunctionAt => none
  | .declareStack => some "handle_declare_stack"
  | .deleteStack => some "handle_delete_stack"
  | .stackFrame => some "handle_stack_frame"
  | .structs => some "handle_structs"
  | .structInfo => some "handle_struct_info"
  | .readStruct => some "handle_read_struct"
  | .xRefsTo => some "handle_xrefs_to"
  | .xRefsFrom => some "handle_xrefs_from"
  | .xRefsToField => some "handle_xrefs_to_field"
  | .imports => some "handle_imports"
  | .exports => some "handle_exports"
  | .entrypoints => some "handle_entrypoints"
  | .luminaLookup => some "handle_lumina_lookup"
  | .luminaApply => some "handle_lumina_apply"
  | .getBytes => some "handle_get_bytes"
  | .addBookmark => some "handle_add_bookmark"
  | .sdkMutation => some "handle_sdk_mutation"
  | .setComments => some "handle_set_comments"
  | .appendComment => some "handle_append_comment"
  | .rename => some "handle_rename"
  | .patchBytes => some "handle_patch_bytes"
  | .patchAsm => some "handle_patch_asm"
  | .basicBlocks => some "handle_basic_blocks"
  | .callees => some "handle_callees"
  | .callers => some "handle_callers"
  | .idbMeta => some "handle_idb_meta"
  | .lookupFunctions => some "handle_lookup_funcs"
  | .listGlobals => some "handle_list_globals"
  | .analyzeStrings => some "handle_analyze_strings"
  | .findString => some "handle_find_string"
  | .xrefsToString => some "handle_xrefs_to_string"
  | .findBytes => some "handle_find_bytes"
  | .searchText => some "handle_search_text"
  | .searchImm => some "handle_search_imm"
  | .findInsns => some "handle_find_insns"
  | .findInsnOperands => some "handle_find_insn_operands"
  | .makeSignature => some "handle_make_signature"
  | .readInt => some "handle_read_int"
  | .getInt => some "handle_get_int"
  | .putInt => some "handle_put_int"
  | .getString => some "handle_get_string"
  | .getGlobalValue => some "handle_get_global_value"
  | .findPaths => some "handle_find_paths"
  | .callGraph => some "handle_callgraph"
  | .xrefMatrix => some "handle_xref_matrix"
  | .exportFuncs => some "handle_list_functions"
  | .pseudocodeAt => some "handle_pseudocode_at"

/- `IdaRequest`, less what only a handler reads. `cancel`: the request has a token. -/
inductive IdaRequest where
  | openDb (path : String) (cancel : Bool)
  | close (save : Bool)
  | closeIfGeneration (generation : ℕ)
  | analysisStatus (expectedGeneration : Option ℕ)
  | dscLoadImage (image : String) (expectedGeneration : Option ℕ)
  | analyzeFuncs (cancel : Bool)
  | runScript (cancel : Bool)
  | tool (t : Tool)
  | shutdown
  deriving DecidableEq

/- An open database. `lifetime` numbers the databases the process has opened, so two
opens of one path differ in it. -/
structure Idb where
  path : String
  lifetime : ℕ
  deriving DecidableEq

/- The loop serves requests, has returned to its caller, or the process has exited. -/
inductive Phase where
  | running
  | returned
  | exited
  deriving DecidableEq

/- The variables of `run_ida_loop` and the process's `CAUGHT_SIGNAL`; `lifetimes` counts
the databases opened so far. -/
structure Loop where
  idb : Option Idb
  databaseGeneration : Option ℕ
  nextDatabaseGeneration : ℕ
  lockFile : Bool
  lockPath : Option String
  libInitialized : Bool
  installFault : Option String
  caughtSignal : Option ℕ
  lifetimes : ℕ
  phase : Phase
  deriving DecidableEq

inductive ConditionalCloseResult where
  | closed
  | notCurrent
  deriving DecidableEq

/- What a request's responder is sent, or that it was dropped. -/
inductive Reply where
  | opened (path : String) (generation : ℕ)
  | closed
  | closedIf (result : ConditionalCloseResult)
  | handled
  | err (e : ToolError)
  | dropped
  deriving DecidableEq

/- A call into IDA. A handler that finds no database open returns without one. -/
inductive IdaCall where
  | initLibrary
  | openDatabase (path : String)
  | handler (db : Option Idb)
  | dropDatabase (db : Idb) (save : Bool)
  deriving DecidableEq

/- What one iteration does: the state it leaves, what it answers, the calls it makes. A
`Shutdown` has no responder. -/
structure Turn where
  state : Loop
  reply : Option Reply
  calls : List IdaCall
  deriving DecidableEq

/- How the opening of a database ends, once `handle_open` gets that far. -/
inductive OpenResult where
  | failed (e : ToolError)
  | opened (path lockPath : String)
  deriving DecidableEq

/- How a handler ends. -/
inductive HandlerResult where
  | ok
  | err (e : ToolError)
  | noResult
  | crash (signal : ℕ)
  deriving DecidableEq

/- What the outside contributes to an iteration. The token, if there is one, is seen
cancelled from the check with number `cancelledFrom` on: 0 before the deferred
initialization, 1 at the start of the arm, 2 in `handle_open`. `init` is the result of
`init_ida_library`, with the installation fault it found. -/
structure Answers where
  cancelledFrom : Option ℕ
  init : Except String (Option String)
  opened : OpenResult
  handler : HandlerResult

/- What can happen to the loop: a request, an interrupt, the end of the channel, and the
exit that `retire` has armed. -/
inductive Act where
  | request (r : IdaRequest) (ans : Answers)
  | interrupt (signal : ℕ)
  | disconnected
  | exitNow

end IdaHeadless.MainLoop
