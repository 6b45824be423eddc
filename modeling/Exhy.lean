import Exhy.Library.Count
import Exhy.Library.Multimap
import Exhy.Library.OrderedSet
import Exhy.Library.Machine
import Exhy.Library.Executor
import Exhy.Library.Trace
import Exhy.Library.Surroundings
import Exhy.Library.Scanner
import Exhy.Library.Positions
import Exhy.Library.Language
import Exhy.Library.Outline
import Exhy.Library.CString
import Exhy.Library.Lexicographic
import Exhy.Library.Lines
import Exhy.Library.Fold
import Exhy.Library.Transition
import Exhy.Library.Encoding
import Exhy.Library.Splice
import Exhy.Library.Bits
import Exhy.Library.Literal
import Exhy.Library.Codec
import Exhy.Config.Core
import Exhy.Config.Load
import Exhy.Config.Fields
import Exhy.Config.Listeners
import Exhy.Log.Core
import Exhy.Log.Inheritance
import Exhy.Log.Reconfigure
import Exhy.Log.Delivery
import Exhy.Log.Define
import Exhy.Log.Dump
import Exhy.Log.Pattern
import Exhy.Timer.Core
import Exhy.Timer.Order
import Exhy.Timer.Expiry
import Exhy.Timer.Wakeup
import Exhy.Timer.Queue
import Exhy.Timer.Rollover
import Exhy.Timer.Calls
import Exhy.Timer.Boundary
import Exhy.Timer.Results
import Exhy.Scheduler.Core
import Exhy.Scheduler.Exclusion
import Exhy.Scheduler.Wakeup
import Exhy.Scheduler.Queue
import Exhy.Scheduler.Lifecycle
import Exhy.Scheduler.Activity
import Exhy.Scheduler.Affinity
import Exhy.Scheduler.Shutdown
import Exhy.IOManager.Event
import Exhy.IOManager.Bookkeeping
import Exhy.IOManager.Operations
import Exhy.IOManager.Dispatch
import Exhy.IOManager.Table
import Exhy.IOManager.Idle
import Exhy.IOManager.Registration
import Exhy.Hook.Core
import Exhy.Hook.Current
import Exhy.Hook.Timeout
import Exhy.Hook.Early
import Exhy.Hook.FdManager
import Exhy.Hook.Nonblock
import Exhy.Hook.Close
import Exhy.Hook.Sleep
import Exhy.ByteArray.Core
import Exhy.ByteArray.Invariant
import Exhy.ByteArray.Refinement
import Exhy.ByteArray.Codec
import Exhy.ByteArray.Sequence
import Exhy.ByteArray.Integers
import Exhy.ByteArray.Strings
import Exhy.ByteArray.Buffers
import Exhy.ByteArray.Transfer
import Exhy.ByteArray.Reachable
import Exhy.ByteArray.ReadBuffers
import Exhy.ByteArray.ScatterWrite
import Exhy.ByteArray.Positional
import Exhy.ByteArray.Files
import Exhy.ByteArray.PastEnd
import Exhy.ByteArray.Floats
import Exhy.Http.Http11Grammar
import Exhy.Http.Http
import Exhy.Http.Stream
import Exhy.Http.HttpRequestParser
import Exhy.Http.Method
import Exhy.Http.Session
import Exhy.Http.Reader
import Exhy.Http.Fragmentation
import Exhy.Http.Pipeline
import Exhy.Http.HttpclientGrammar
import Exhy.Http.HttpResponseParser
import Exhy.Http.Connection
import Exhy.Http.ResponseReader
import Exhy.Http.ChunkLine
import Exhy.Http.Chunked
import Exhy.Http.ConnectionPool
import Exhy.Http.PoolLimits
import Exhy.Http.PoolExchange
import Exhy.Http.Dump
import Exhy.Http.HeaderBlock
import Exhy.Http.ResponseRoundTrip
import Exhy.Http.RequestLine
import Exhy.Http.RequestBlock
import Exhy.Http.RequestRoundTrip
import Exhy.Http.Servlet
import Exhy.Http.BodyLength
import Exhy.Http.Slices
import Exhy.Http.ChunkCopies
import Exhy.Http.SelfDelimiting
import Exhy.Uri.Grammar
import Exhy.Uri.Core
import Exhy.Uri.Outline
import Exhy.Uri.Reference
import Exhy.Uri.Run
import Exhy.Uri.Parts
import Exhy.Uri.Tail
import Exhy.Uri.Authority
import Exhy.Uri.Userinfo
import Exhy.Uri.Decomposition
import Exhy.Uri.Components
import Exhy.Uri.RoundTrip
import Exhy.Address.Core
import Exhy.Address.Text
import Exhy.Address.Unix
import Exhy.Address.Subnet
import Exhy.Address.Networks
import Exhy.Address.Ports
import Exhy.Address.Interfaces
import Exhy.Address.Lookup
import Exhy.Address.Storage
import Exhy.TcpServer.Bind
import Exhy.TcpServer.Shutdown
import Exhy.ZlibStream.Core
import Exhy.ZlibStream.Delivery
import Exhy.Http.Exchange
import Exhy.Fiber.Core
import Exhy.Fiber.Switch
import Exhy.ZlibStream.RoundTrip
import Exhy.Config.Containers
import Exhy.Http.DoRequest
import Exhy.Library.Ownership
import Exhy.Socket.Core
import Exhy.Socket.Lifecycle
import Exhy.Socket.Timeouts
import Exhy.Library.LockOrder
import Exhy.Thread.Locks
import Exhy.Thread.Deadlock
import Exhy.Thread.Start
