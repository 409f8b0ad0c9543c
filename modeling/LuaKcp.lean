import LuaKcp.Foundations.Machine
import LuaKcp.Foundations.Table
import LuaKcp.Foundations.Cut
import LuaKcp.Foundations.Number
import LuaKcp.Ikcp.Flush
import LuaKcp.Ikcp.Wire
import LuaKcp.Ikcp.Receiver
import LuaKcp.Binding.Process
import LuaKcp.Session.Endpoint
import LuaKcp.Session.Connection
import LuaKcp.Session.Drain
import LuaKcp.Session.Limits
import LuaKcp.Session.Client
import LuaKcp.Session.Delivery
import LuaKcp.Server.Changes
import LuaKcp.Server.Records
import LuaKcp.Server.Connections
import LuaKcp.Server.Freshness
import LuaKcp.Server.Completion
import LuaKcp.Server.Indexes
import LuaKcp.Server.Lifetime
import LuaKcp.Server.Greeting
import LuaKcp.Battle.Center
import LuaKcp.Battle.Changes
import LuaKcp.Battle.Loop
import LuaKcp.Battle.Joining
import LuaKcp.Battle.Commands
import LuaKcp.Battle.Ending
import LuaKcp.Foundations.Rounding
import LuaKcp.Battle.Duration
import LuaKcp.Server.Closing
import LuaKcp.Server.Peer
import LuaKcp.Session.Datagrams
import LuaKcp.Ikcp.Pending
import LuaKcp.Ikcp.Transmission
import LuaKcp.Session.Retransmission
import LuaKcp.Session.Asking
import LuaKcp.Server.Answers
import LuaKcp.Server.Agreement
import LuaKcp.Foundations.Codec
import LuaKcp.Binding.Framing
import LuaKcp.Server.Texts
import LuaKcp.Ikcp.Reassembly
import LuaKcp.Session.Reassembly
import LuaKcp.Ikcp.Timing
import LuaKcp.Session.Scheduling
import LuaKcp.Simulator.Latency
import LuaKcp.Server.Capacity
import LuaKcp.Server.Requests
import LuaKcp.Server.Responses
import LuaKcp.Ikcp.Emission
import LuaKcp.Ikcp.Outstanding
import LuaKcp.Ikcp.Probing
import LuaKcp.Session.Acknowledging
import LuaKcp.Session.Progress
import LuaKcp.Ikcp.Storage
import LuaKcp.Ikcp.Calls
import LuaKcp.Session.Backoff
import LuaKcp.Session.Congestion
import LuaKcp.Session.Probing
import LuaKcp.Foundations.Ring
import LuaKcp.Memory.Acklist
import LuaKcp.Memory.Block
import LuaKcp.Memory.Loops
import LuaKcp.Memory.Refinement
import LuaKcp.Memory.Runs
