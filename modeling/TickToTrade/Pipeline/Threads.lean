import TickToTrade.Queue.Linearizable
import TickToTrade.Pipeline.Dispatch
import TickToTrade.Strategy.MarketMaker

/-! The two threads of `Main`. The network thread receives datagrams, parses each into a fresh
message object and spins on `push`; the strategy thread pops messages, applies each to the book and
calls the strategies. They share the ring, so a list of actions is a schedule of its atomic steps. -/
namespace TickToTrade.Main
open Bytes Itch

/-- `QUEUE_CAPACITY`, the size of the ring between the threads. -/
def queueCapacity : ℕ := 65536

/-- The market-data callback on one datagram: the message it pushes, if any. Its buffer and its
message object hold whatever the stack held. -/
def udpCallback (buffer : ℕ → UInt8) (prior : InternalMessage) (datagram : List UInt8) :
    Option InternalMessage :=
  let bytes := datagram.take 2048
  if 0 < bytes.length then
    match parse (store buffer 0 bytes) bytes.length prior with
    | (true,parsedMsg) => some parsedMsg
    | (false,_) => none
  else none

/-- What the strategy thread works on, with all buffers it has handed to the gateway. -/
structure Trading where
  lob : LimitOrderBook
  strategyEngine : StrategyEngine
  strategies : List MarketMakerStrategy
  handed : List (List UInt8)

/-- The strategy thread's work on a popped message. -/
def Trading.update (kernel : KernelSend) (deviates : UInt32 → UInt32 → Bool) (site : ℕ → CallSite)
    (t : Trading) (msg : InternalMessage) : Option Trading := do
  let lob ← mainDispatch t.lob msg
  let (handed,strategies,strategyEngine) ←
    t.strategyEngine.onMarketDataUpdate kernel deviates msg site t.strategies
  some ⟨lob,strategyEngine,strategies,t.handed ++ handed⟩

/-- `datagrams` are still to be received; `parsedMsg` is the message that the callback is pushing,
`msg` a popped one that is still to be applied. -/
structure State where
  datagrams : List (List UInt8)
  parsedMsg : Option InternalMessage
  queue : SPSCQueue.State InternalMessage
  msg : Option InternalMessage
  trading : Trading

/-- The slots of the ring hold whatever they held. -/
def init (data : ℕ → InternalMessage) (datagrams : List (List UInt8)) (trading : Trading) : State :=
  ⟨datagrams,none,SPSCQueue.init data,none,trading⟩

inductive Action
  | receive (buffer : ℕ → UInt8) (prior : InternalMessage)
  | queue (a : SPSCQueue.Action InternalMessage)
  | update (site : ℕ → CallSite)

/-- A push starts with the message of the callback, a pop when the last message has been applied. -/
def State.enables (s : State) : SPSCQueue.Action InternalMessage → Bool
  | .loadWrite item => s.parsedMsg = some item
  | .loadRead => s.msg.isNone
  | _ => true

/-- A push that is refused is tried again; a pop that finds nothing likewise. -/
def State.observe (s : State) : SPSCQueue.Event InternalMessage → State
  | .pushed _ => { s with parsedMsg := none }
  | .popped item => { s with msg := some item }
  | _ => s

/-- One step of either thread; the answer is the message that the strategy thread is done with. -/
def step (kernel : KernelSend) (deviates : UInt32 → UInt32 → Bool) (s : State) :
    Action → Option (Option InternalMessage × State)
  | .receive buffer prior =>
    match s.parsedMsg, s.datagrams with
    | none, datagram :: datagrams =>
      some (none,{ s with datagrams := datagrams, parsedMsg := udpCallback buffer prior datagram })
    | _, _ => none
  | .queue a =>
    if s.enables a then do
      let (e,queue) ← SPSCQueue.step queueCapacity s.queue a
      some (none,({ s with queue := queue } : State).observe e)
    else none
  | .update site => do
    let msg ← s.msg
    let trading ← s.trading.update kernel deviates site msg
    some (some msg,{ s with msg := none, trading := trading })

/-- The messages that the strategy thread has consumed. -/
def consumed (answers : List (Option InternalMessage)) : List InternalMessage := answers.reduceOption

end TickToTrade.Main
