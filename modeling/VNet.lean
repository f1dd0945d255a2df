import VNet.Agent.EventLoop
import VNet.Agent.Program
import VNet.Blackbox.AgentRegistry
import VNet.Blackbox.Config
import VNet.Blackbox.Delivery
import VNet.Blackbox.Fabric
import VNet.Blackbox.FailedLoad
import VNet.Blackbox.Grammar
import VNet.Blackbox.Ipv4
import VNet.Blackbox.Isolation
import VNet.Blackbox.LineEndings
import VNet.Blackbox.Loaded
import VNet.Blackbox.Ownership
import VNet.Blackbox.Policy
import VNet.Blackbox.Process
import VNet.Blackbox.Reconnect
import VNet.Blackbox.ReturnTraffic
import VNet.Blackbox.Routes
import VNet.Blackbox.TwoSwitches
import VNet.Blackbox.WellFormed
import VNet.Common.BlockingReads
import VNet.Common.Handshake
import VNet.Common.SocketUtils
import VNet.Conductor.Dump
import VNet.Conductor.EventLoop
import VNet.Conductor.Lists
import VNet.Conductor.PendingTokens
import VNet.Conductor.Program
import VNet.Conductor.RoundRobin
import VNet.Conductor.Transitions
import VNet.Conductor.Writes
import VNet.Dispatch
import VNet.Lib.Channels
import VNet.Lib.Cyclic
import VNet.Lib.Exec
import VNet.Lib.Files
import VNet.Lib.Framing
import VNet.Lib.Maps
import VNet.Lib.Runs
import VNet.Memory
import VNet.NetQueue.Destroy
import VNet.NetQueue.Element
import VNet.NetQueue.EndOfStream
import VNet.NetQueue.Lifecycle
import VNet.NetQueue.Lifetime
import VNet.NetQueue.Link
import VNet.NetQueue.Origins
import VNet.NetQueue.Overflow
import VNet.NetQueue.Preservation
import VNet.NetQueue.Process
import VNet.NetQueue.Progress
import VNet.NetQueue.Queue
import VNet.NetQueue.Receive
import VNet.NetQueue.ReceiveBuffer
import VNet.NetQueue.Refinement
import VNet.NetQueue.Segmentation
import VNet.NetQueue.SendRuns
import VNet.NetQueue.Tables
import VNet.NetQueue.TunReads
import VNet.NetQueue.TunWrites
import VNet.NetQueue.View
import VNet.NetQueue.WakeUp
import VNet.NetQueue.WholeFrames
import VNet.NetQueue.Write
import VNet.NetQueue.WritePath
import VNet.Network.Acceptance
import VNet.Network.AgentReads
import VNet.Network.Agreement
import VNet.Network.ConductorPart
import VNet.Network.Custody
import VNet.Network.Heartbeats
import VNet.Network.History
import VNet.Network.Invariant
import VNet.Network.Messages
import VNet.Network.Model
import VNet.Network.Steps
import VNet.Network.TokenOrder
import VNet.Protocol
import VNet.Server
import VNet.Switch.AgentList
import VNet.Switch.EventLoop
import VNet.Switch.Program
import VNet.Switch.Tokens
