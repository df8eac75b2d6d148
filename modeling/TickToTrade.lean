import TickToTrade.Library.Run
import TickToTrade.Library.Keyed
import TickToTrade.Library.Decimal
import TickToTrade.Library.ProbeLoop
import TickToTrade.Library.OpenTable
import TickToTrade.Library.Linked
import TickToTrade.Library.Bytes
import TickToTrade.Library.Layout
import TickToTrade.Library.Rounding
import TickToTrade.Library.Framing
import TickToTrade.Library.ReleaseAcquire
import TickToTrade.OrderBook.Model
import TickToTrade.OrderBook.Table
import TickToTrade.OrderBook.FiniteMap
import TickToTrade.OrderBook.Memory
import TickToTrade.OrderBook.Levels
import TickToTrade.OrderBook.Pool
import TickToTrade.OrderBook.Invariant
import TickToTrade.OrderBook.Calls
import TickToTrade.OrderBook.Effect
import TickToTrade.OrderBook.Live
import TickToTrade.OrderBook.Volume
import TickToTrade.OrderBook.Reference
import TickToTrade.OrderBook.Refinement
import TickToTrade.OrderBook.Priority
import TickToTrade.OrderBook.Replace
import TickToTrade.OrderBook.Naive
import TickToTrade.OrderBook.Termination
import TickToTrade.OrderBook.Representation
import TickToTrade.OrderBook.Budget
import TickToTrade.OrderBook.Handles
import TickToTrade.Queue.Model
import TickToTrade.Queue.Linearizable
import TickToTrade.Queue.WeakMemory
import TickToTrade.Queue.RaceFree
import TickToTrade.Queue.Orders
import TickToTrade.Queue.Progress
import TickToTrade.Itch.Parser
import TickToTrade.Itch.Builder
import TickToTrade.Itch.RoundTrip
import TickToTrade.Itch.Format
import TickToTrade.Pipeline.Dispatch
import TickToTrade.Pipeline.Agreement
import TickToTrade.Pipeline.History
import TickToTrade.Pipeline.Generator
import TickToTrade.Pipeline.Benchmark
import TickToTrade.Pipeline.Progress
import TickToTrade.Pipeline.Latency
import TickToTrade.Ems.Model
import TickToTrade.Ems.Refinement
import TickToTrade.Ems.Capacity
import TickToTrade.Ems.Lifecycle
import TickToTrade.Ems.Fills
import TickToTrade.Ems.Independence
import TickToTrade.Risk.Model
import TickToTrade.Risk.Concurrent
import TickToTrade.Risk.Deviation
import TickToTrade.Ouch.EnterOrder
import TickToTrade.Ouch.RoundTrip
import TickToTrade.Ouch.Messages
import TickToTrade.Egress.Gateway
import TickToTrade.Egress.Stream
import TickToTrade.Strategy.Engine
import TickToTrade.Strategy.Coherence
import TickToTrade.Strategy.Transmission
import TickToTrade.Strategy.MarketMaker
import TickToTrade.Strategy.OneShot
import TickToTrade.Strategy.WireFields
import TickToTrade.Pipeline.Threads
import TickToTrade.Pipeline.NonInterference
import TickToTrade.Pipeline.StrategyThread
import TickToTrade.Logger.Message
import TickToTrade.Logger.Background
import TickToTrade.Logger.Shutdown
import TickToTrade.Logger.File
import TickToTrade.Logger.Growth
import TickToTrade.Logger.Process
import TickToTrade.Logger.Files
import TickToTrade.Logger.Draining
import TickToTrade.Network.EventLoop
import TickToTrade.Network.Registry
import TickToTrade.Exchange.Emulator
import TickToTrade.Exchange.Segments
import TickToTrade.Exchange.Feedback
import TickToTrade.Exchange.ClosedLoop
