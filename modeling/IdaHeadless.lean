import IdaHeadless.Runs
import IdaHeadless.Tasks
import IdaHeadless.Traversal
import IdaHeadless.Unseen
import IdaHeadless.ToolError
import IdaHeadless.WorkerPool.State
import IdaHeadless.WorkerPool.Step
import IdaHeadless.WorkerPool.Effects
import IdaHeadless.WorkerPool.Invariant
import IdaHeadless.WorkerPool.Slots
import IdaHeadless.WorkerPool.Capacity
import IdaHeadless.WorkerPool.Exclusive
import IdaHeadless.WorkerPool.Registry
import IdaHeadless.WorkerPool.Minimum
import IdaHeadless.WorkerPool.Release
import IdaHeadless.WorkerPool.Leak
import IdaHeadless.WorkerPool.Sessions
import IdaHeadless.SessionManager.State
import IdaHeadless.SessionManager.Step
import IdaHeadless.SessionManager.Assertions
import IdaHeadless.SessionManager.Invariant
import IdaHeadless.SessionManager.Maps
import IdaHeadless.SessionManager.Calls
import IdaHeadless.LockFile.Step
import IdaHeadless.LockFile.Exclusion
import IdaHeadless.MainLoop.State
import IdaHeadless.MainLoop.Step
import IdaHeadless.MainLoop.Lifetimes
import IdaHeadless.Dsc.Step
import IdaHeadless.Dsc.Ownership
import IdaHeadless.Remote
import IdaHeadless.Opening.Step
import IdaHeadless.Opening.Usable
import IdaHeadless.Database.Identity
import IdaHeadless.Database.Open
import IdaHeadless.Database.Leftover
import IdaHeadless.HttpSessions
import IdaHeadless.Operation
import IdaHeadless.CloseToken.Step
import IdaHeadless.CloseToken.Lease
import IdaHeadless.MainLoop.Ending
import IdaHeadless.PatternScan
import IdaHeadless.Radix
import IdaHeadless.Signature.Search
import IdaHeadless.Signature.Render
import IdaHeadless.Signature.Make
import IdaHeadless.ByteOrder
import IdaHeadless.TypedInt
import IdaHeadless.Address
import IdaHeadless.Payload.Bytes
import IdaHeadless.Payload.SignedValue
import IdaHeadless.Symbols
import IdaHeadless.Structs.Lookup
import IdaHeadless.Structs.Layout
import IdaHeadless.SessionManager.Closing
import IdaHeadless.Supervisor.Step
import IdaHeadless.WorkerPool.Stopping
import IdaHeadless.Supervisor.Shutdown
import IdaHeadless.Supervisor.Errands
import IdaHeadless.Paging
import IdaHeadless.Xrefs
import IdaHeadless.BoundedSearch
import IdaHeadless.Scan.Heads
import IdaHeadless.FirstRows
import IdaHeadless.Scan.Sequences
import IdaHeadless.Scan.Immediates
import IdaHeadless.Routes
import IdaHeadless.ControlFlow.FindPaths
import IdaHeadless.BoundedWalk
import IdaHeadless.ControlFlow.CallGraph
import IdaHeadless.DataFlow
import IdaHeadless.Listing.Loop
import IdaHeadless.Listing.Handlers
import IdaHeadless.Listing.Pages
import IdaHeadless.Listing.Resources
import IdaHeadless.Readers
import IdaHeadless.Lines
import IdaHeadless.Comments
import IdaHeadless.Address.Grammar
import IdaHeadless.Address.Lists
import IdaHeadless.WorkerMetadata
import IdaHeadless.Transducer
import IdaHeadless.Python.Lexer
import IdaHeadless.Python.Layout
import IdaHeadless.Dsc.Scripts
import IdaHeadless.Dsc.ScriptLayout
import IdaHeadless.EventStream
import IdaHeadless.LegacySse.Frames
import IdaHeadless.LegacySse.Step
import IdaHeadless.LegacySse.Delivery
import IdaHeadless.Composite.Component
import IdaHeadless.Composite.Joins
import IdaHeadless.Composite.Calls
import IdaHeadless.InterleavedPaging
import IdaHeadless.Listing.StringIndex
import IdaHeadless.Listing.StringWalks
import IdaHeadless.Foreground.Registry
import IdaHeadless.Foreground.Trails
import IdaHeadless.Foreground.Effort
import IdaHeadless.Overlay
import IdaHeadless.Signature.Operands
import IdaHeadless.RegistryIsolation.Snapshots
import IdaHeadless.RegistryIsolation.Reaping
import IdaHeadless.Edits
