import CppProject.Lib.PointerChain
import CppProject.Lib.Transition
import CppProject.Lib.Interval
import CppProject.MakeGuid.Gen
import CppProject.MakeGuid.Uniqueness
import CppProject.SkipListTimer.Node
import CppProject.SkipListTimer.SkipList
import CppProject.SkipListTimer.Descent
import CppProject.SkipListTimer.Links
import CppProject.SkipListTimer.Represents
import CppProject.SkipListTimer.Insert
import CppProject.SkipListTimer.Delete
import CppProject.SkipListTimer.Structure
import CppProject.SkipListTimer.Order
import CppProject.SkipListTimer.Cancel
import CppProject.StlAlloc.Arena
import CppProject.StlAlloc.FreeLists
import CppProject.StlAlloc.Refill
import CppProject.StlAlloc.Allocate
import CppProject.StlAlloc.Partition
import CppProject.StlAlloc.MallocFailure
import CppProject.ThreadPool.Pool
import CppProject.ThreadPool.System
import CppProject.ThreadPool.Queue
import CppProject.ThreadPool.Effect
import CppProject.ThreadPool.Ledger
import CppProject.ThreadPool.Invariant
import CppProject.ThreadPool.Preservation
import CppProject.ThreadPool.ExactlyOnce
import CppProject.ThreadPool.Wakeup
import CppProject.ThreadPool.Deadlock
import CppProject.DBPool.Pool
import CppProject.DBPool.Clients
import CppProject.DBPool.Ownership
import CppProject.Reactor.Reactor
import CppProject.Reactor.Batches
import CppProject.Reactor.Table
import CppProject.DBPool.Wakeup
import CppProject.DBPool.NullConn
import CppProject.DBPool.DoubleRelease
import CppProject.ThreadPool.Teardown
import CppProject.ThreadPool.DestroyTwice
import CppProject.ThreadPool.Producers
import CppProject.SkipListTimer.Layers
import CppProject.SkipListTimer.Expire
import CppProject.SkipListTimer.Clock
import CppProject.SkipListTimer.Destructor
import CppProject.SkipListTimer.Resources
import CppProject.HttpClient.SendRequest
import CppProject.HttpClient.AsyncClient
import CppProject.HttpClient.Segments
import CppProject.HttpClient.Completion
import CppProject.SkipListTimer.Scan
import CppProject.SkipListTimer.Due
import CppProject.StlAlloc.Fallback
import CppProject.MakeGuid.Layout
import CppProject.Reactor.Dispatch
import CppProject.Reactor.Removal
import CppProject.HttpClient.ReceiveErrors
import CppProject.HttpClient.Payload
import CppProject.Lib.QuotedText
import CppProject.Lib.SqlLexer
import CppProject.Lib.SqlUpdate
import CppProject.DBPool.UserTable
import CppProject.DBPool.PrepareStatement
import CppProject.DBPool.ThreadNotify
import CppProject.DBPool.UpdateResult
import CppProject.SkipListTimer.Milliseconds
import CppProject.StlAlloc.Requests
import CppProject.HttpClient.Rejection
import CppProject.SkipListTimer.RandomLevel
import CppProject.ThreadPool.Init
import CppProject.ThreadPool.QueueInvariant
import CppProject.Lib.Ranking
import CppProject.ThreadPool.Termination
import CppProject.Lib.Simulation
import CppProject.WorkUsePool.System
import CppProject.WorkUsePool.Jobs
import CppProject.DBPool.Destructor
import CppProject.WorkUsePool.Completion
import CppProject.Lib.WorkQueue
import CppProject.ThreadPool.Refinement
import CppProject.Lib.TimerQueue
import CppProject.SkipListTimer.Lifecycle
import CppProject.SkipListTimer.PlainList
import CppProject.StlAlloc.Isolation
import CppProject.StlAlloc.Footprint
import CppProject.Reactor.Leaks
import CppProject.DBPool.ResultSet
import CppProject.DBPool.UserStore
import CppProject.HttpClient.Holdings
import CppProject.HttpClient.RequestText
import CppProject.Lib.Peaks
import CppProject.SkipListTimer.Cost
import CppProject.DBPool.UserInserts
import CppProject.DBPool.MysqlServer
