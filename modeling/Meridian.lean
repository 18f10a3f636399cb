import Meridian.Lib.Run
import Meridian.RingSetInvariant
import Meridian.Marshal.Packets
import Meridian.RingSet
import Meridian.Marshal.RoundTrip
import Meridian.MQL.Value
import Meridian.MQL.ValueCodec
import Meridian.Lib.Binary64
import Meridian.Query.Search
import Meridian.Query.SearchInvariant
import Meridian.Query.SearchReply
import Meridian.Marshal.Accepted
import Meridian.Query.Measure
import Meridian.Query.Request
import Meridian.Query.RequestReply
import Meridian.Lib.Framing
import Meridian.Marshal.Tunnel
import Meridian.Marshal.PullBuffer
import Meridian.Process.Rendavous
import Meridian.Query.RingManage
import Meridian.RingSetScan
import Meridian.Query.RingReplace
import Meridian.Process.Node
import Meridian.Process.RingFrozen
import Meridian.Process.Eviction
import Meridian.Process.ProbeOwner
import Meridian.Process.Threads
import Meridian.Process.ThreadSteps
import Meridian.Process.Wakeup
import Meridian.Process.RpcReply
import Meridian.Lib.Buckets
import Meridian.Process.QueryTable
import Meridian.Process.TableCalls
import Meridian.Process.Reentrancy
import Meridian.Process.Dispatch
import Meridian.Process.NullRead
import Meridian.Lib.ExpiringMap
import Meridian.Process.LatencyCache
import Meridian.Process.RpcRequest
import Meridian.Process.RpcChains
import Meridian.Process.Relay
import Meridian.Process.RingMembers
import Meridian.Process.Gossip
import Meridian.Query.Distance
import Meridian.Process.GetDistance
import Meridian.Process.Subscriptions
import Meridian.MQL.State
import Meridian.MQL.Arith
import Meridian.MQL.ArithDefined
import Meridian.MQL.Update
import Meridian.MQL.Eval
import Meridian.MQL.Start
import Meridian.Lib.Runs
import Meridian.MQL.Heap
import Meridian.MQL.Invariant
import Meridian.MQL.UpdateInvariant
import Meridian.Marshal.BufferBounds
import Meridian.Query.SearchDecision
import Meridian.Query.Threshold
import Meridian.Query.SearchProgress
import Meridian.Query.Conversions
import Meridian.Query.Solution
import Meridian.Process.Icmp
import Meridian.RingSetRendv
import Meridian.RingSetMembers
import Meridian.RingSetRecords
import Meridian.MQL.RingFunctions
import Meridian.MQL.StatementOrder
import Meridian.Process.TimeoutPass
import Meridian.Process.RpcHops
import Meridian.MQL.Reading
import Meridian.MQL.AssignInvariant
import Meridian.MQL.NativeInvariant
import Meridian.MQL.MachineInvariant
import Meridian.Query.ReduceMatrix
import Meridian.Query.LatencyMatrix
import Meridian.Process.Scheduler
import Meridian.Lib.Occurrences
import Meridian.MQL.Denotes
import Meridian.MQL.Copies
import Meridian.MQL.StartInvariant
import Meridian.MQL.Ownership
import Meridian.MQL.HeapSteps
import Meridian.MQL.Accounting
import Meridian.MQL.ScopeBalance
import Meridian.MQL.HeapReachable
import Meridian.MQL.ArraySets
import Meridian.MQL.RingArrays
import Meridian.MQL.ArrayTypes
import Meridian.MQL.AssignFrame
import Meridian.MQL.AssignLaw
import Meridian.Process.WritePending
import Meridian.Process.RendvHost
import Meridian.Marshal.InfoPacket
import Meridian.Process.InfoPage
import Meridian.Lib.Ticking
import Meridian.Marshal.ParseWork
import Meridian.MQL.ParseWork
import Meridian.Process.Durations
import Meridian.Lib.OrthonormalRows
import Meridian.Lib.Blas
import Meridian.Query.GramSchmidt
import Meridian.Lib.Follows
import Meridian.MQL.SideEffects
import Meridian.MQL.EvaluatedTwice
import Meridian.MQL.TwoCallers
import Meridian.MQL.TwoCallersUpdate
import Meridian.MQL.TwoCallersNative
import Meridian.MQL.TwoCallersMachine
import Meridian.MQL.CallIndependence
import Meridian.MQL.FrontEnd
import Meridian.MQL.Adequacy
