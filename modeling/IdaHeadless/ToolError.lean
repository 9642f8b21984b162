import Mathlib.Data.Nat.Notation

/-!
# Tool errors (error.rs) and what the pool reads off them

The variants of `ToolError` with the data they carry. The `detail` of
`IdaErrorDetail` is JSON the pool never looks into and is kept as its text.
-/

namespace IdaHeadless

/-- `ToolError` (`error.rs:11-142`). -/
inductive ToolError where
  | noDatabaseOpen
  | databaseAlreadyOpen (path : String)
  | openFailed (message : String)
  | databaseLocked (message : String)
  | invalidAddress (text : String)
  | invalidPath (text : String)
  | invalidParams (text : String)
  | invalidToolCategory (text : String)
  | invalidToolName (text : String)
  | addressOutOfRange (address : ℕ)
  | functionNotFound (address : ℕ)
  | functionNameNotFound (name : String)
  | timeout (secs : ℕ)
  | timeoutDetailed (message : String)
  | cancelled (message : String)
  | busy
  | databaseReplaced
  | backgroundTaskHandlePrivate
  | backgroundTaskRegistryFull (max : ℕ)
  | poolExhausted (active max : ℕ)
  | workerCrashed (workerId : ℕ) (lastOp : String)
  | remoteProtocol (message : String)
  | idaError (message : String)
  | idaErrorDetail (message detail : String)
  | workerRetired (message : String)
  | notSupported (message : String)
  | workerClosed
  | idaInstallFault (message : String)
  deriving DecidableEq, Repr

/-- `{:#x}` of an unsigned number. -/
def hexAddr (n : ℕ) : String := "0x" ++ String.ofList (Nat.toDigits 16 n)

/-- `Display for ToolError`. -/
def ToolError.display : ToolError → String
  | .noDatabaseOpen =>
    "No database is currently open. If you had one open previously, the server may have " ++
      "restarted — call open_idb again."
  | .databaseAlreadyOpen path => "A database is already open: " ++ path ++ ". Use close_idb first."
  | .openFailed message => "Failed to open database: " ++ message
  | .databaseLocked message => "Database appears to be open in another instance: " ++ message
  | .invalidAddress text => "Invalid address format: " ++ text
  | .invalidPath text => "Invalid database path: " ++ text
  | .invalidParams text => "Invalid parameters: " ++ text
  | .invalidToolCategory text => "Invalid tool category: " ++ text
  | .invalidToolName text => "Invalid tool name: " ++ text
  | .addressOutOfRange address => "Address " ++ hexAddr address ++ " is outside valid range"
  | .functionNotFound address => "Function not found at address " ++ hexAddr address
  | .functionNameNotFound name => "Function not found: " ++ name
  | .timeout secs => "Operation timed out after " ++ toString secs ++ " seconds"
  | .timeoutDetailed message => message
  | .cancelled message => message
  | .busy => "Server is busy (request queue full). Please retry."
  | .databaseReplaced =>
    "The database this background operation opened was closed and replaced. " ++
      "Its remaining work was abandoned so it cannot touch the current database."
  | .backgroundTaskHandlePrivate =>
    "Matching background work is already running; its task handle stays with the response that " ++
      "started it. Retry after it finishes."
  | .backgroundTaskRegistryFull max =>
    "Background task registry is full (" ++ toString max ++
      " retained tasks). Retry after older results expire."
  | .poolExhausted active max =>
    "Worker pool exhausted: " ++ toString active ++ "/" ++ toString max ++
      " workers are leased. Close an IDB or retry later."
  | .workerCrashed workerId lastOp =>
    "Worker " ++ toString workerId ++ " crashed or disconnected during " ++ lastOp
  | .remoteProtocol message => "Remote worker protocol error: " ++ message
  | .idaError message => "IDA error: " ++ message
  | .idaErrorDetail message _ => message
  | .workerRetired message => message
  | .notSupported message => "Not supported: " ++ message
  | .workerClosed => "Worker channel closed"
  | .idaInstallFault message => message

/-- `is_lifecycle_error` (`remote.rs:40-50`). -/
def isLifecycleError : ToolError → Bool
  | .workerClosed | .workerCrashed _ _ | .workerRetired _ | .timeout _ | .timeoutDetailed _
  | .cancelled _ => true
  | _ => false

/-- `child_tool_error_retires_worker` (`pool.rs:1159-1167`). -/
def childToolErrorRetiresWorker : ToolError → Bool
  | .workerClosed | .workerCrashed _ _ | .workerRetired _ | .remoteProtocol _ => true
  | _ => false

/-- `open_error_releases_lease` (`pool.rs:1169-1180`). -/
def openErrorReleasesLease (freshLease : Bool) (err : ToolError) : Bool :=
  freshLease || match err with
    | .timeout _ | .timeoutDetailed _ | .cancelled _ | .workerCrashed _ _ | .workerClosed
    | .workerRetired _ => true
    | _ => false

end IdaHeadless
