import RdmaCore.Lib.Lts
import RdmaCore.Lib.Bytes
import RdmaCore.Lib.Writes
import RdmaCore.Lib.Window
import RdmaCore.Lib.Text
import RdmaCore.Lib.Duplex
import RdmaCore.Lib.Flow
import RdmaCore.Types
import RdmaCore.Config
import RdmaCore.Identity
import RdmaCore.Adapter
import RdmaCore.Loading
import RdmaCore.ServerSession
import RdmaCore.Lifetime
import RdmaCore.Framing
import RdmaCore.EndPoint
import RdmaCore.Transitions
import RdmaCore.Propagation
import RdmaCore.Mesh
import RdmaCore.LinkLayer
import RdmaCore.Reconnect
import RdmaCore.Dispatch
import RdmaCore.Isolation
import RdmaCore.Session
import RdmaCore.Handlers
import RdmaCore.PeerBuffers
import RdmaCore.Inflight
import RdmaCore.SessionFlow
import RdmaCore.Conservation
import RdmaCore.KeyExchange
import RdmaCore.Readiness
import RdmaCore.WriteRead
import RdmaCore.LoopHistory
import RdmaCore.Texts
import RdmaCore.Buffer
import RdmaCore.Blocks
import RdmaCore.Ring
import RdmaCore.RingWindow
import RdmaCore.Registry
import RdmaCore.Inheritance
import RdmaCore.Teardown
import RdmaCore.Ownership
import RdmaCore.Posting
import RdmaCore.Deregistration
import RdmaCore.Lib.Loop
import RdmaCore.Ports
import RdmaCore.Transfer
import RdmaCore.ClientSession
import RdmaCore.NetTool
import RdmaCore.EndOfStream
import RdmaCore.TimeEvent
import RdmaCore.TimerRuns
import RdmaCore.TowerProgress
import RdmaCore.Benchmark
import RdmaCore.BenchmarkFlow
import RdmaCore.BenchmarkPrograms
import RdmaCore.BenchmarkSteps
import RdmaCore.BenchmarkExchange
import RdmaCore.BenchmarkRuns
import RdmaCore.BenchmarkProgress
