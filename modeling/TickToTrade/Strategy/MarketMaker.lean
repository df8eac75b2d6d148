import TickToTrade.Itch.Parser
import TickToTrade.Strategy.Engine

/-! The market-making strategies: each hits the first bid that is added at or above its threshold
and then stays out of the market. The strategy engine calls its strategies one after another with
every message; what they read of a message is what its type carries. -/
namespace TickToTrade
open Bytes Ouch

structure MarketMakerStrategy where
  thresholdPrice : UInt32
  orderQty : UInt32
  symbol : CString
  positionTaken : Bool

/-- What a call of `sendOrder` meets outside the engine: the contents of its stack buffer and the
gateway's descriptor. -/
structure CallSite where
  ouchBuffer : ℕ → UInt8
  fd : ℤ

namespace MarketMakerStrategy

/-- The constructor; `symbol_` has room for seven characters. -/
def init (thresholdPrice orderQty : UInt32) (symbol : CString) : MarketMakerStrategy where
  thresholdPrice := thresholdPrice
  orderQty := orderQty
  symbol := ⟨symbol.bytes.take 7,fun h => symbol.no_nul (List.mem_of_mem_take h)⟩
  positionTaken := false

/-- The sell order for a bid; `deviates` is the price-deviation test on price and reference price. -/
def order (strategy : MarketMakerStrategy) (deviates : UInt32 → UInt32 → Bool) (msg : InternalMessage)
    (site : CallSite) : OrderRequest where
  side := 'S'.toUInt8
  shares := strategy.orderQty
  price := msg.price.toUInt32
  symbol := some strategy.symbol
  referencePrice := msg.price.toUInt32
  deviates := deviates msg.price.toUInt32 msg.price.toUInt32
  ouchBuffer := site.ouchBuffer
  fd := site.fd

/-- `onMarketDataUpdate`, with the buffers it hands to the gateway. -/
def onMarketDataUpdate (kernel : KernelSend) (deviates : UInt32 → UInt32 → Bool) (msg : InternalMessage)
    (site : CallSite) (strategy : MarketMakerStrategy) (engine : StrategyEngine) :
    Option (List (List UInt8) × MarketMakerStrategy × StrategyEngine) :=
  if strategy.positionTaken then some ([],strategy,engine)
  else if msg.type = 'A'.toUInt8 ∧ msg.side = .buy ∧ strategy.thresholdPrice.toUInt64 ≤ msg.price then do
    let (outcome,engine) ← engine.sendOrder kernel (strategy.order deviates msg site)
    some (outcome.handed.toList,if outcome.returned then { strategy with positionTaken := true } else strategy,
      engine)
  else some ([],strategy,engine)

end MarketMakerStrategy

namespace StrategyEngine

/-- `onMarketDataUpdate` of the engine; a call site belongs to each call, numbered by the
strategies that come after it. -/
def onMarketDataUpdate (kernel : KernelSend) (deviates : UInt32 → UInt32 → Bool) (msg : InternalMessage)
    (site : ℕ → CallSite) : StrategyEngine → List MarketMakerStrategy →
      Option (List (List UInt8) × List MarketMakerStrategy × StrategyEngine)
  | engine, [] => some ([],[],engine)
  | engine, strategy :: strategies => do
    let (first,strategy,engine) ← strategy.onMarketDataUpdate kernel deviates msg (site strategies.length) engine
    let (rest,strategies,engine) ← onMarketDataUpdate kernel deviates msg site engine strategies
    some (first ++ rest,strategy :: strategies,engine)

/-- The engines are the same up to what the socket has taken. -/
structure SameTrading (s t : StrategyEngine) : Prop where
  ems : s.ems = t.ems
  riskEngine : s.riskEngine = t.riskEngine
  orderIdCounter : s.orderIdCounter = t.orderIdCounter

/-- The stack buffer does not show on the wire. -/
theorem wireBytes_eq (req : OrderRequest) (id : UInt64) : wireBytes req id = (req.enterOrder id).wire :=
  ((req.enterOrder id).slice_buildEnterOrder req.ouchBuffer (by decide : 49 ≤ 64)).2

variable {kernel kernel' : KernelSend} {s s' t t' : StrategyEngine} {req req' : OrderRequest}
  {outcome outcome' : SendOutcome} {deviates : UInt32 → UInt32 → Bool} {msg : InternalMessage}

/-- Neither the kernel nor the call site decides what a call does inside the engine. -/
theorem SameTrading.sendOrder (h : SameTrading s t)
    (hreq : req' = { req with ouchBuffer := req'.ouchBuffer, fd := req'.fd })
    (hs : s.sendOrder kernel req = some (outcome,s')) (ht : t.sendOrder kernel' req' = some (outcome',t')) :
    outcome.handed = outcome'.handed ∧ outcome.returned = outcome'.returned ∧ SameTrading s' t' := by
  have hcheck : req'.check t.riskEngine = req.check s.riskEngine := by rw [hreq,h.riskEngine]; rfl
  have hwire : wireBytes req' t.orderIdCounter = wireBytes req s.orderIdCounter := by
    rw [wireBytes_eq,wireBytes_eq,hreq,h.orderIdCounter]
    rfl
  have hems : t.ems.onOrderSent t.orderIdCounter req'.price req'.shares =
      s.ems.onOrderSent s.orderIdCounter req.price req.shares := by
    rw [hreq,h.ems,h.orderIdCounter]
  have hshares : req'.signedShares = req.signedShares := by rw [hreq]; rfl
  rcases sendOrder_cases hs with ⟨status,hstatus,hne,rfl,rfl⟩ | ⟨ok,ems,gateway,taken,hstatus,hok,_,rfl,rfl⟩
  · rcases sendOrder_cases ht with ⟨status',_,_,rfl,rfl⟩ | ⟨_,_,_,_,hstatus',_⟩
    · exact ⟨rfl,rfl,h⟩
    · rw [hcheck,hstatus] at hstatus'
      exact absurd (Option.some.inj hstatus') hne
  · rcases sendOrder_cases ht with ⟨status',hstatus',hne,_⟩ | ⟨ok',ems',gateway',taken',_,hok',_,rfl,rfl⟩
    · rw [hcheck,hstatus] at hstatus'
      exact absurd (Option.some.inj hstatus').symm hne
    · rw [hems,hok] at hok'
      obtain ⟨_,rfl⟩ := Prod.mk.inj (Option.some.inj hok')
      refine ⟨by rw [hwire],rfl,rfl,?_,?_⟩
      · change s.riskEngine.updatePosition _ = t.riskEngine.updatePosition _
        rw [hshares,h.riskEngine]
      · change s.orderIdCounter + 1 = t.orderIdCounter + 1
        rw [h.orderIdCounter]

end StrategyEngine

open StrategyEngine

section Updates
variable {kernel kernel' : KernelSend} {deviates : UInt32 → UInt32 → Bool} {msg : InternalMessage}
  {s s' t t' : StrategyEngine} {handed handed' : List (List UInt8)}

/-- A strategy reads of a message what its type carries. -/
lemma MarketMakerStrategy.onMarketDataUpdate_canonical (kernel : KernelSend) (deviates : UInt32 → UInt32 → Bool)
    (msg : InternalMessage) (site : CallSite) (strategy : MarketMakerStrategy) (engine : StrategyEngine) :
    strategy.onMarketDataUpdate kernel deviates msg.canonical site engine =
      strategy.onMarketDataUpdate kernel deviates msg site engine := by
  by_cases hA : msg.type = 'A'.toUInt8
  · rw [msg.canonical_of_add hA]
  · simp [onMarketDataUpdate,hA]

lemma StrategyEngine.onMarketDataUpdate_canonical (kernel : KernelSend) (deviates : UInt32 → UInt32 → Bool)
    (msg : InternalMessage) (site : ℕ → CallSite) (strategies : List MarketMakerStrategy) (engine : StrategyEngine) :
    engine.onMarketDataUpdate kernel deviates msg.canonical site strategies =
      engine.onMarketDataUpdate kernel deviates msg site strategies := by
  induction strategies generalizing engine with
  | nil => rfl
  | cons strategy strategies ih =>
    simp only [StrategyEngine.onMarketDataUpdate,MarketMakerStrategy.onMarketDataUpdate_canonical,ih]

/-- One strategy, called with one message in two engines that trade the same. -/
theorem StrategyEngine.SameTrading.strategy {site site' : CallSite} {strategy u u' : MarketMakerStrategy}
    (h : SameTrading s t) (hs : strategy.onMarketDataUpdate kernel deviates msg site s = some (handed,u,s'))
    (ht : strategy.onMarketDataUpdate kernel' deviates msg site' t = some (handed',u',t')) :
    handed = handed' ∧ u = u' ∧ SameTrading s' t' := by
  unfold MarketMakerStrategy.onMarketDataUpdate at hs ht
  split at hs
  · rename_i htaken
    rw [if_pos htaken] at ht
    obtain ⟨rfl,rfl,rfl⟩ := by simpa using hs
    obtain ⟨rfl,rfl,rfl⟩ := by simpa using ht
    exact ⟨rfl,rfl,h⟩
  · rename_i htaken
    rw [if_neg htaken] at ht
    split at hs
    · rename_i hbid
      rw [if_pos hbid] at ht
      obtain ⟨⟨outcome,s₁⟩,hsend,hs⟩ := Option.bind_eq_some_iff.mp hs
      obtain ⟨⟨outcome',t₁⟩,hsend',ht⟩ := Option.bind_eq_some_iff.mp ht
      obtain ⟨hhanded,hreturned,hsame⟩ := h.sendOrder rfl hsend hsend'
      obtain ⟨rfl,rfl,rfl⟩ := by simpa using hs
      obtain ⟨rfl,rfl,rfl⟩ := by simpa using ht
      exact ⟨by rw [hhanded],by rw [hreturned],hsame⟩
    · rename_i hbid
      rw [if_neg hbid] at ht
      obtain ⟨rfl,rfl,rfl⟩ := by simpa using hs
      obtain ⟨rfl,rfl,rfl⟩ := by simpa using ht
      exact ⟨rfl,rfl,h⟩

/-- All strategies, called with one message in two engines that trade the same. -/
theorem StrategyEngine.SameTrading.update {site site' : ℕ → CallSite} {strategies us us' : List MarketMakerStrategy}
    (h : SameTrading s t) (hs : s.onMarketDataUpdate kernel deviates msg site strategies = some (handed,us,s'))
    (ht : t.onMarketDataUpdate kernel' deviates msg site' strategies = some (handed',us',t')) :
    handed = handed' ∧ us = us' ∧ SameTrading s' t' := by
  induction strategies generalizing s t handed handed' us us' with
  | nil =>
    obtain ⟨rfl,rfl,rfl⟩ := by simpa [StrategyEngine.onMarketDataUpdate] using hs
    obtain ⟨rfl,rfl,rfl⟩ := by simpa [StrategyEngine.onMarketDataUpdate] using ht
    exact ⟨rfl,rfl,h⟩
  | cons strategy strategies ih =>
    obtain ⟨⟨first,u,s₁⟩,hfirst,hs⟩ := Option.bind_eq_some_iff.mp hs
    obtain ⟨⟨first',u',t₁⟩,hfirst',ht⟩ := Option.bind_eq_some_iff.mp ht
    obtain ⟨⟨rest,vs,s₂⟩,hrest,hs⟩ := Option.bind_eq_some_iff.mp hs
    obtain ⟨⟨rest',vs',t₂⟩,hrest',ht⟩ := Option.bind_eq_some_iff.mp ht
    obtain ⟨rfl,rfl,rfl⟩ := by simpa using hs
    obtain ⟨rfl,rfl,rfl⟩ := by simpa using ht
    obtain ⟨rfl,rfl,hsame⟩ := h.strategy hfirst hfirst'
    obtain ⟨rfl,rfl,hsame'⟩ := ih hsame hrest hrest'
    exact ⟨rfl,rfl,hsame'⟩

end Updates
end TickToTrade
