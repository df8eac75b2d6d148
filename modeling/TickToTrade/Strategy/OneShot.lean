import TickToTrade.Library.Keyed
import TickToTrade.Itch.Format
import TickToTrade.Strategy.MarketMaker
import Mathlib.Algebra.BigOperators.Group.List.Basic

/-! No strategy trades twice. The engine's loop over its strategies is a run of single calls; the
invariant of such runs says that a strategy is latched exactly when it has handed an order over. -/
namespace TickToTrade
open Bytes Ouch

/-- A message that the parser has returned. -/
def InternalMessage.Parsed (msg : InternalMessage) : Prop :=
  ∃ buffer length prior, Itch.parse buffer length prior = (true,msg)

/-- A message delivered to the engine, with what the calls of its strategies meet outside. -/
structure Delivery where
  msg : InternalMessage
  site : ℕ → CallSite

/-- One call in the loop over the strategies. -/
structure StrategyCall where
  index : ℕ
  msg : InternalMessage
  site : CallSite

/-- The calls that one delivery makes to `n` strategies. -/
def Delivery.calls (n : ℕ) (d : Delivery) : List StrategyCall :=
  (List.range n).map fun i => ⟨i,d.msg,d.site (n - 1 - i)⟩

namespace StrategyEngine

/-- The engine on one delivery. -/
def deliver (kernel : KernelSend) (deviates : UInt32 → UInt32 → Bool)
    (s : List MarketMakerStrategy × StrategyEngine) (d : Delivery) :
    Option (List (List UInt8) × List MarketMakerStrategy × StrategyEngine) :=
  s.2.onMarketDataUpdate kernel deviates d.msg d.site s.1

/-- One iteration of its loop. -/
def callStrategy (kernel : KernelSend) (deviates : UInt32 → UInt32 → Bool)
    (s : List MarketMakerStrategy × StrategyEngine) (c : StrategyCall) :
    Option (List (List UInt8) × List MarketMakerStrategy × StrategyEngine) := do
  let strategy ← s.1[c.index]?
  let (handed,strategy,engine) ← strategy.onMarketDataUpdate kernel deviates c.msg c.site s.2
  some (handed,s.1.set c.index strategy,engine)

end StrategyEngine

/-- The sum of the order quantities of the strategies that have taken their position. -/
def soldQty (strategies : List MarketMakerStrategy) : ℤ :=
  ((strategies.filter MarketMakerStrategy.positionTaken).map fun strategy => (strategy.orderQty.toNat : ℤ)).sum

/-- The buffers that the strategy at an index has handed to the gateway. -/
def handedBy (calls : List StrategyCall) (handed : List (List (List UInt8))) (i : ℕ) : List (List UInt8) :=
  (Keyed.answersFor StrategyCall.index i calls handed).flatten

/-- The buffer is an Enter Order that sells the strategy's quantity at the price of the message,
which adds a bid at or above the strategy's threshold. -/
structure HitsBid (strategy : MarketMakerStrategy) (msg : InternalMessage) (bytes : List UInt8) : Prop where
  type : msg.type = 'A'.toUInt8
  side : msg.side = .buy
  threshold : strategy.thresholdPrice.toNat ≤ msg.price.toNat
  length : bytes.length = 49
  order : ∀ outMsg, ∃ order, parseEnterOrder (ofBytes bytes) 49 outMsg = (true,order) ∧
    order.buySellIndicator = 'S'.toUInt8 ∧ order.shares = strategy.orderQty ∧
    order.price.toNat = msg.price.toNat

/-- After the calls each strategy has handed over at most one order, for a bid it was called with; it
is latched exactly if it has, and the position is what the latched strategies have sold. -/
structure NoRunaway (strategies : List MarketMakerStrategy) (calls : List StrategyCall)
    (handed : List (List (List UInt8))) (s : List MarketMakerStrategy × StrategyEngine) : Prop where
  once : ∀ i, (handedBy calls handed i).length ≤ 1
  hits : List.Forall₂ (fun c buffers => ∀ bytes ∈ buffers, ∃ strategy,
    strategies[c.index]? = some strategy ∧ HitsBid strategy c.msg bytes) calls handed
  latch : s.1 = strategies.mapIdx fun i strategy =>
    { strategy with positionTaken := !(handedBy calls handed i).isEmpty }
  position : s.2.riskEngine.currentPosition = -soldQty s.1

open StrategyEngine

/-- Every message of the format can be delivered. -/
lemma Itch.Message.internal_parsed (msg : Itch.Message) (prior : InternalMessage) : (msg.internal prior).Parsed :=
  ⟨_,_,prior,Itch.parse_encode msg [] prior⟩

/-- The parser fills the price of an added order from four bytes. -/
lemma InternalMessage.Parsed.price_lt {msg : InternalMessage} (h : msg.Parsed) (hA : msg.type = 'A'.toUInt8) :
    msg.price.toNat < 2 ^ 32 := by
  obtain ⟨buffer,length,prior,hparse⟩ := h
  let P (x : Bool × InternalMessage) : Prop := x.1 = true → x.2.type = 'A'.toUInt8 → x.2.price.toNat < 2 ^ 32
  have hrejected : ∀ msg, P (false,msg) := fun _ h => by contradiction
  have hP : P (Itch.parse buffer length prior) := by
    refine iteInduction (fun _ => hrejected _) fun _ =>
      iteInduction (fun _ => iteInduction (fun _ => hrejected _) fun _ _ _ => UInt32.toNat_lt _) fun hother => ?_
    -- every other branch keeps the type that was read
    have hkept : ∀ msg : InternalMessage, msg.type = buffer 0 → P (true,msg) :=
      fun msg htype _ hA => absurd (htype.symm.trans hA) hother
    exact iteInduction (fun _ => iteInduction (fun _ => hrejected _) fun _ => hkept _ rfl) fun _ =>
      iteInduction (fun _ => iteInduction (fun _ => hrejected _) fun _ => hkept _ rfl) fun _ =>
      iteInduction (fun _ => iteInduction (fun _ => hrejected _) fun _ => hkept _ rfl) fun _ =>
      iteInduction (fun _ => iteInduction (fun _ => hrejected _) fun _ => hkept _ rfl) fun _ => hrejected _
  rw [hparse] at hP
  exact hP rfl hA

section Calls
variable {kernel : KernelSend} {deviates : UInt32 → UInt32 → Bool} {msg : InternalMessage} {site : CallSite}
  {strategy u : MarketMakerStrategy} {s s' : StrategyEngine} {handed : List (List UInt8)}

/-- Everything a call of a strategy can do: nothing, or take the position with one approved order. -/
theorem MarketMakerStrategy.onMarketDataUpdate_cases
    (h : strategy.onMarketDataUpdate kernel deviates msg site s = some (handed,u,s')) :
    (handed = [] ∧ u = strategy ∧ s' = s) ∨
    ∃ ok ems gateway, strategy.positionTaken = false ∧
      (msg.type = 'A'.toUInt8 ∧ msg.side = .buy ∧ strategy.thresholdPrice.toUInt64 ≤ msg.price) ∧
      (strategy.order deviates msg site).check s.riskEngine = some .approved ∧
      s.ems.onOrderSent s.orderIdCounter msg.price.toUInt32 strategy.orderQty = some (ok,ems) ∧
      handed = [wireBytes (strategy.order deviates msg site) s.orderIdCounter] ∧
      u = { strategy with positionTaken := true } ∧
      s' = ⟨ems,s.riskEngine.updatePosition (strategy.order deviates msg site).signedShares,gateway,
        s.orderIdCounter + 1⟩ := by
  unfold MarketMakerStrategy.onMarketDataUpdate at h
  split at h
  · obtain ⟨rfl,rfl,rfl⟩ := by simpa using h
    exact .inl ⟨rfl,rfl,rfl⟩
  · rename_i hfree
    split at h
    · rename_i hbid
      obtain ⟨⟨outcome,s₁⟩,hsend,h⟩ := Option.bind_eq_some_iff.mp h
      obtain ⟨rfl,rfl,rfl⟩ := by simpa using h
      rcases sendOrder_cases hsend with ⟨status,_,_,rfl,rfl⟩ | ⟨ok,ems,gateway,taken,hcheck,hems,_,rfl,rfl⟩
      · exact .inl ⟨rfl,rfl,rfl⟩
      · exact .inr ⟨ok,ems,gateway,by simpa using hfree,hbid,hcheck,hems,rfl,rfl,rfl⟩
    · obtain ⟨rfl,rfl,rfl⟩ := by simpa using h
      exact .inl ⟨rfl,rfl,rfl⟩

/-- The order for a parsed bid says what the strategy and the bid say. -/
theorem MarketMakerStrategy.hitsBid_order (hparsed : msg.Parsed)
    (hbid : msg.type = 'A'.toUInt8 ∧ msg.side = .buy ∧ strategy.thresholdPrice.toUInt64 ≤ msg.price)
    (deviates : UInt32 → UInt32 → Bool) (site : CallSite) (id : UInt64) :
    HitsBid strategy msg (wireBytes (strategy.order deviates msg site) id) where
  type := hbid.1
  side := hbid.2.1
  threshold := by simpa [UInt64.le_iff_toNat_le] using hbid.2.2
  length := length_slice _ _ _
  order outMsg := by
    have hlength : (wireBytes (strategy.order deviates msg site) id).length = 49 := length_slice _ _ _
    have hread := parse_wireBytes (strategy.order deviates msg site) id outMsg
    rw [hlength] at hread
    refine ⟨_,hread,rfl,rfl,?_⟩
    change msg.price.toUInt32.toNat = msg.price.toNat
    rw [UInt64.toNat_toUInt32]
    exact Nat.mod_eq_of_lt (hparsed.price_lt hbid.1)

end Calls

lemma handedBy_append {calls : List StrategyCall} {handed : List (List (List UInt8))}
    (hlength : calls.length = handed.length) (c : StrategyCall) (buffers : List (List UInt8)) (i : ℕ) :
    handedBy (calls ++ [c]) (handed ++ [buffers]) i =
      handedBy calls handed i ++ if c.index = i then buffers else [] := by
  rw [handedBy,Keyed.answersFor_append _ hlength,List.flatten_append]
  split <;> simp [handedBy]

lemma soldQty_cons (strategy : MarketMakerStrategy) (strategies : List MarketMakerStrategy) :
    soldQty (strategy :: strategies) =
      (if strategy.positionTaken then (strategy.orderQty.toNat : ℤ) else 0) + soldQty strategies := by
  rw [soldQty,List.filter_cons]
  split
  · rfl
  · exact (Int.zero_add _).symm

/-- A strategy that takes its position adds its quantity to what has been sold. -/
lemma soldQty_set {strategies : List MarketMakerStrategy} {i : ℕ} {strategy : MarketMakerStrategy}
    (hi : strategies[i]? = some strategy) (hfree : strategy.positionTaken = false) :
    soldQty (strategies.set i { strategy with positionTaken := true }) =
      soldQty strategies + strategy.orderQty.toNat := by
  induction strategies generalizing i with
  | nil => simp at hi
  | cons first strategies ih =>
    cases i with
    | zero =>
      obtain rfl : first = strategy := by simpa using hi
      rw [List.set_cons_zero,soldQty_cons,soldQty_cons,hfree]
      simp [Int.add_comm]
    | succ i =>
      rw [List.set_cons_succ,soldQty_cons,soldQty_cons,ih (by simpa using hi),Int.add_assoc]

lemma soldQty_bounds (strategies : List MarketMakerStrategy) : 0 ≤ soldQty strategies ∧
    soldQty strategies ≤ (strategies.map fun strategy => strategy.orderQty.toNat).sum := by
  induction strategies with
  | nil => exact ⟨le_refl 0,le_refl 0⟩
  | cons first strategies ih =>
    rw [soldQty_cons,List.map_cons,List.sum_cons]
    split <;> omega

variable {kernel : KernelSend} {deviates : UInt32 → UInt32 → Bool} {strategies : List MarketMakerStrategy}
  {calls : List StrategyCall} {handed : List (List (List UInt8))} {c : StrategyCall} {buffers : List (List UInt8)}
  {s s' : List MarketMakerStrategy × StrategyEngine}

lemma StrategyEngine.callStrategy_eq_some : callStrategy kernel deviates s c = some (buffers,s') ↔
    ∃ strategy u, s.1[c.index]? = some strategy ∧
      strategy.onMarketDataUpdate kernel deviates c.msg c.site s.2 = some (buffers,u,s'.2) ∧
      s'.1 = s.1.set c.index u := by
  obtain ⟨after,engine⟩ := s'
  simp only [callStrategy,Option.bind_eq_bind,Option.bind_eq_some_iff,Option.some.injEq,Prod.exists,Prod.mk.injEq]
  constructor
  · rintro ⟨strategy,hat,_,u,_,hcall,rfl,rfl,rfl⟩
    exact ⟨strategy,u,hat,hcall,rfl⟩
  · rintro ⟨strategy,u,hat,hcall,rfl⟩
    exact ⟨strategy,hat,_,u,_,hcall,rfl,rfl,rfl⟩

/-- Everything an iteration of the loop can do. -/
theorem StrategyEngine.callStrategy_cases (h : callStrategy kernel deviates s c = some (buffers,s')) :
    (buffers = [] ∧ s' = s) ∨
    ∃ strategy ok ems gateway, s.1[c.index]? = some strategy ∧ strategy.positionTaken = false ∧
      (c.msg.type = 'A'.toUInt8 ∧ c.msg.side = .buy ∧ strategy.thresholdPrice.toUInt64 ≤ c.msg.price) ∧
      (strategy.order deviates c.msg c.site).check s.2.riskEngine = some .approved ∧
      s.2.ems.onOrderSent s.2.orderIdCounter c.msg.price.toUInt32 strategy.orderQty = some (ok,ems) ∧
      buffers = [wireBytes (strategy.order deviates c.msg c.site) s.2.orderIdCounter] ∧
      s' = (s.1.set c.index { strategy with positionTaken := true },
        ⟨ems,s.2.riskEngine.updatePosition (strategy.order deviates c.msg c.site).signedShares,gateway,
          s.2.orderIdCounter + 1⟩) := by
  obtain ⟨strategy,u,hat,hcall,hset⟩ := callStrategy_eq_some.mp h
  rcases MarketMakerStrategy.onMarketDataUpdate_cases hcall with
    ⟨rfl,rfl,hengine⟩ | ⟨ok,ems,gateway,hfree,hbid,hcheck,hems,rfl,rfl,hengine⟩
  · obtain ⟨hindex,rfl⟩ := List.getElem?_eq_some_iff.mp hat
    rw [List.set_getElem_self] at hset
    exact .inl ⟨rfl,Prod.ext hset hengine⟩
  · exact .inr ⟨strategy,ok,ems,gateway,hat,hfree,hbid,hcheck,hems,rfl,Prod.ext hset hengine⟩

lemma noRunaway_start (maxOrders : ℕ) (config : RiskConfig)
    (hfresh : ∀ strategy ∈ strategies, strategy.positionTaken = false) :
    NoRunaway strategies [] [] (strategies,init maxOrders config) where
  once i := Nat.zero_le 1
  hits := .nil
  latch := by
    apply List.ext_getElem?
    intro i
    rw [List.getElem?_mapIdx]
    cases hi : strategies[i]? with
    | none => rfl
    | some strategy =>
      have hfree := hfresh strategy (List.mem_of_getElem? hi)
      obtain ⟨thresholdPrice,orderQty,symbol,positionTaken⟩ := strategy
      obtain rfl := hfree
      rfl
  position := by
    have hnone : strategies.filter MarketMakerStrategy.positionTaken = [] := by
      rw [List.filter_eq_nil_iff]
      intro strategy hmem
      simp [hfresh strategy hmem]
    simp [soldQty,hnone,PreTradeRiskEngine.init]

/-- The strategy at an index is the original one with its latch. -/
lemma NoRunaway.original {i : ℕ} {strategy : MarketMakerStrategy} (h : NoRunaway strategies calls handed s)
    (hi : s.1[i]? = some strategy) : ∃ original, strategies[i]? = some original ∧
      strategy = { original with positionTaken := !(handedBy calls handed i).isEmpty } := by
  rw [h.latch,List.getElem?_mapIdx] at hi
  obtain ⟨original,horiginal,heq⟩ := Option.map_eq_some_iff.mp hi
  exact ⟨original,horiginal,heq.symm⟩

/-- One call keeps it: a latched strategy is silent, and one that hands an order over was not
latched before and is afterwards. -/
theorem NoRunaway.call (h : NoRunaway strategies calls handed s) (hlength : calls.length = handed.length)
    (hparsed : c.msg.Parsed) (hcall : callStrategy kernel deviates s c = some (buffers,s')) :
    NoRunaway strategies (calls ++ [c]) (handed ++ [buffers]) s' := by
  rcases callStrategy_cases hcall with
    ⟨rfl,rfl⟩ | ⟨strategy,ok,ems,gateway,hat,hfree,hbid,hcheck,_,rfl,rfl⟩
  · have hsame : ∀ i, handedBy (calls ++ [c]) (handed ++ [[]]) i = handedBy calls handed i := by
      intro i
      rw [handedBy_append hlength]
      simp
    refine ⟨fun i => by rw [hsame]; exact h.once i,?_,?_,h.position⟩
    · exact List.rel_append h.hits (.cons (by simp) .nil)
    · simp only [hsame]
      exact h.latch
  · obtain ⟨original,horiginal,rfl⟩ := h.original hat
    have hempty : handedBy calls handed c.index = [] := by simpa using hfree
    have hhit := MarketMakerStrategy.hitsBid_order hparsed hbid deviates c.site s.2.orderIdCounter
    constructor
    · intro i
      rw [handedBy_append hlength]
      split
      · rename_i hi
        rw [← hi,hempty]
        exact le_refl 1
      · rw [List.append_nil]
        exact h.once i
    · refine List.rel_append h.hits (.cons ?_ .nil)
      intro bytes hbytes
      obtain rfl := List.mem_singleton.mp hbytes
      exact ⟨original,horiginal,hhit.type,hhit.side,hhit.threshold,hhit.length,hhit.order⟩
    · rw [h.latch]
      apply List.ext_getElem?
      intro i
      rw [List.getElem?_set,List.getElem?_mapIdx,List.getElem?_mapIdx,handedBy_append hlength]
      split
      · rename_i hi
        subst hi
        have hindex := (List.getElem?_eq_some_iff.mp horiginal).1
        rw [horiginal,hempty,if_pos (by simpa using hindex)]
        simp
      · simp
    · obtain ⟨_,hrange,_⟩ := PreTradeRiskEngine.approved_spec hcheck
      rw [soldQty_set hat hfree]
      refine (PreTradeRiskEngine.updatePosition_exact hrange).trans ?_
      rw [h.position,Int.neg_add]
      rfl

/-- Over all calls of a run. -/
theorem NoRunaway.run (h : NoRunaway strategies [] [] s) (hparsed : ∀ c ∈ calls, c.msg.Parsed)
    (hrun : run (callStrategy kernel deviates) s calls = some (handed,s')) :
    NoRunaway strategies calls handed s' := by
  refine run_induction (I := fun pre before u => NoRunaway strategies pre before u) h ?_ hrun
  intro pre c post before u buffers u' hsplit hpre hinv hcall
  refine hinv.call (run_length hpre).symm (hparsed c ?_) hcall
  rw [hsplit]
  simp

/-- The loop over the remaining strategies, behind those that have had their call. -/
lemma StrategyEngine.run_calls_from (kernel : KernelSend) (deviates : UInt32 → UInt32 → Bool) (d : Delivery)
    (front back : List MarketMakerStrategy) (engine : StrategyEngine) :
    (run (callStrategy kernel deviates) (front ++ back,engine) ((List.range' front.length back.length).map
        fun i => ⟨i,d.msg,d.site (front.length + back.length - 1 - i)⟩)).map (fun p => (p.1.flatten,p.2)) =
      (engine.onMarketDataUpdate kernel deviates d.msg d.site back).map fun p => (p.1,front ++ p.2.1,p.2.2) := by
  induction back generalizing front engine with
  | nil => rfl
  | cons strategy back ih =>
    rw [List.length_cons,List.range'_succ,List.map_cons,run_cons]
    have hat : (front ++ strategy :: back)[front.length]? = some strategy := by simp
    have hsite : front.length + (back.length + 1) - 1 - front.length = back.length := by omega
    rw [hsite]
    simp only [callStrategy,hat,onMarketDataUpdate,Option.bind_eq_bind,Option.bind_some]
    cases hfirst : strategy.onMarketDataUpdate kernel deviates d.msg (d.site back.length) engine with
    | none => rfl
    | some p =>
      obtain ⟨first,u,engine'⟩ := p
      have hset : (front ++ strategy :: back).set front.length u = (front ++ [u]) ++ back := by simp
      have hlength : (front ++ [u]).length + back.length = front.length + (back.length + 1) := by
        rw [List.length_append,List.length_singleton]
        omega
      have hrest := congrArg (Option.map fun q => (first ++ q.1,q.2)) (ih (front ++ [u]) engine')
      rw [hlength,List.length_append,List.length_singleton,← hset] at hrest
      simp only [Option.map_map] at hrest
      simp only [Option.bind_some,Option.map_map]
      refine hrest.trans ?_
      cases onMarketDataUpdate kernel deviates d.msg d.site engine' back with
      | none => rfl
      | some q => simp

lemma StrategyEngine.deliver_eq_run (d : Delivery) (s : List MarketMakerStrategy × StrategyEngine) :
    deliver kernel deviates s d =
      (run (callStrategy kernel deviates) s (d.calls s.1.length)).map fun p => (p.1.flatten,p.2) := by
  have hloop := run_calls_from kernel deviates d [] s.1 s.2
  simp only [List.nil_append,List.length_nil,Nat.zero_add,← List.range_eq_range'] at hloop
  exact (hloop.trans Option.map_id').symm

lemma StrategyEngine.callStrategy_length (h : callStrategy kernel deviates s c = some (buffers,s')) :
    s'.1.length = s.1.length := by
  obtain ⟨_,_,_,_,hset⟩ := callStrategy_eq_some.mp h
  rw [hset,List.length_set]

/-- Delivering messages is calling the strategies one after another for each of them. -/
theorem StrategyEngine.run_deliver (s : List MarketMakerStrategy × StrategyEngine) (deliveries : List Delivery) :
    (run (deliver kernel deviates) s deliveries).map (fun p => (p.1.flatten,p.2)) =
      (run (callStrategy kernel deviates) s (deliveries.flatMap (Delivery.calls s.1.length))).map
        fun p => (p.1.flatten,p.2) := by
  refine run_flatMap (I := fun u => u.1.length = s.1.length) ?_ ?_ rfl deliveries
  · intro u d hu
    rw [deliver_eq_run,hu]
  · intro u d r u' hu hdeliver
    rw [deliver_eq_run] at hdeliver
    obtain ⟨p,hp,heq⟩ := Option.map_eq_some_iff.mp hdeliver
    obtain ⟨_,rfl⟩ := Prod.mk.inj heq
    exact run_invariant (I := fun v => v.1.length = s.1.length)
      (fun v c r v' hv hcall => (callStrategy_length hcall).trans hv) hu hp

/-- The EMS has a record for latched strategies only, and more entries than there are strategies. -/
structure Roomy (maxOrders : ℕ) (s : List MarketMakerStrategy × StrategyEngine) : Prop where
  few : s.1.length < 2 * maxOrders
  capacity : s.2.ems.mapCapacity = 2 * maxOrders
  records : ∃ m, s.2.ems.Refines m ∧ m.orders.keys.card ≤ s.1.countP MarketMakerStrategy.positionTaken

lemma roomy_start {maxOrders : ℕ} (hroom : strategies.length < 2 * maxOrders) (config : RiskConfig) :
    Roomy maxOrders (strategies,init maxOrders config) where
  few := hroom
  capacity := Nat.mul_comm _ _
  records := ⟨⟨∅⟩,ExecutionManagementSystem.refines_init (by omega),by simp⟩

/-- While a strategy is free the EMS takes another order; afterwards there is a record more and a
latched strategy more. -/
lemma Roomy.onOrderSent {maxOrders i : ℕ} {strategy : MarketMakerStrategy} (h : Roomy maxOrders s)
    (hat : s.1[i]? = some strategy) (hfree : strategy.positionTaken = false) (id : UInt64) (price quantity : UInt32) :
    ∃ ok ems, s.2.ems.onOrderSent id price quantity = some (ok,ems) ∧ ems.mapCapacity = 2 * maxOrders ∧
      ∃ m, ems.Refines m ∧ m.orders.keys.card ≤
        (s.1.set i { strategy with positionTaken := true }).countP MarketMakerStrategy.positionTaken := by
  obtain ⟨m,hrefines,hcard⟩ := h.records
  have hcount : (s.1.set i { strategy with positionTaken := true }).countP MarketMakerStrategy.positionTaken =
      s.1.countP MarketMakerStrategy.positionTaken + 1 := by
    obtain ⟨hindex,hget⟩ := List.getElem?_eq_some_iff.mp hat
    rw [List.countP_set hindex,hget,hfree]
    rfl
  have hle := List.countP_le_length (p := MarketMakerStrategy.positionTaken)
    (l := s.1.set i { strategy with positionTaken := true })
  rw [hcount,List.length_set] at hle
  have hfew := h.few
  have hspace : id ∈ m.orders ∨ m.orders.keys.card < s.2.ems.mapCapacity := by
    rw [h.capacity]
    omega
  obtain ⟨ems,hsent,hcapacity,hrefines'⟩ := hrefines.onOrderSent hspace price quantity
  refine ⟨_,ems,hsent,hcapacity.trans h.capacity,_,hrefines',?_⟩
  rw [hcount,OrderRecords.keys_sent]
  exact (Finset.card_insert_le _ _).trans (Nat.succ_le_succ hcard)

theorem Roomy.call {maxOrders : ℕ} (h : Roomy maxOrders s)
    (hcall : callStrategy kernel deviates s c = some (buffers,s')) : Roomy maxOrders s' := by
  rcases callStrategy_cases hcall with ⟨_,rfl⟩ | ⟨strategy,ok,ems,gateway,hat,hfree,_,_,hems,_,rfl⟩
  · exact h
  · obtain ⟨ok',ems',hems',hcapacity,hrecords⟩ :=
      h.onOrderSent hat hfree s.2.orderIdCounter c.msg.price.toUInt32 strategy.orderQty
    obtain ⟨_,rfl⟩ := Prod.mk.inj (Option.some.inj (hems.symm.trans hems'))
    refine ⟨?_,hcapacity,hrecords⟩
    rw [List.length_set]
    exact h.few

/-- The quantities do not change, and so bound what can be sold. -/
lemma NoRunaway.soldQty_le {i : ℕ} {strategy : MarketMakerStrategy} (h : NoRunaway strategies calls handed s)
    (hat : s.1[i]? = some strategy) (hfree : strategy.positionTaken = false) :
    soldQty s.1 + strategy.orderQty.toNat ≤ (strategies.map fun strategy => strategy.orderQty.toNat).sum := by
  have hbound := (soldQty_bounds (s.1.set i { strategy with positionTaken := true })).2
  rw [soldQty_set hat hfree] at hbound
  have hquantities : (s.1.set i { strategy with positionTaken := true }).map (fun strategy => strategy.orderQty.toNat) =
      strategies.map fun strategy => strategy.orderQty.toNat := by
    apply List.ext_getElem?
    intro j
    by_cases hj : i = j
    · subst hj
      obtain ⟨original,horiginal,rfl⟩ := h.original hat
      have hindex := (List.getElem?_eq_some_iff.mp hat).1
      rw [List.getElem?_map,List.getElem?_map,List.getElem?_set_self hindex,horiginal]
      rfl
    · rw [List.getElem?_map,List.getElem?_map,List.getElem?_set_ne hj,h.latch,List.getElem?_mapIdx,Option.map_map]
      rfl
  rwa [hquantities] at hbound

/-- A call returns: the EMS has room for it and the position stays in range. -/
theorem Roomy.callStrategy_isSome {maxOrders : ℕ} (h : Roomy maxOrders s) (hno : NoRunaway strategies calls handed s)
    (hquantity : (strategies.map fun strategy => strategy.orderQty.toNat).sum < 2 ^ 63)
    (hindex : c.index < s.1.length) : (callStrategy kernel deviates s c).isSome := by
  have hat : s.1[c.index]? = some s.1[c.index] := List.getElem?_eq_getElem hindex
  suffices (s.1[c.index].onMarketDataUpdate kernel deviates c.msg c.site s.2).isSome by
    obtain ⟨⟨first,u,engine⟩,hcall⟩ := Option.isSome_iff_exists.mp this
    have hsome : callStrategy kernel deviates s c = some (first,s.1.set c.index u,engine) :=
      callStrategy_eq_some.mpr ⟨_,u,hat,hcall,rfl⟩
    rw [hsome]
    rfl
  generalize s.1[c.index] = strategy at hat
  unfold MarketMakerStrategy.onMarketDataUpdate
  split
  · rfl
  · rename_i hfree
    have hfree : strategy.positionTaken = false := by simpa using hfree
    split
    · have hrange : |s.2.riskEngine.currentPosition +
          PreTradeRiskEngine.signedShares 'S'.toUInt8 strategy.orderQty| < 2 ^ 63 := by
        have hle := hno.soldQty_le hat hfree
        have hnonneg := (soldQty_bounds s.1).1
        have hsell : PreTradeRiskEngine.signedShares 'S'.toUInt8 strategy.orderQty = -(strategy.orderQty.toNat : ℤ) := rfl
        rw [hno.position,hsell,abs_lt]
        omega
      have hchecks : ((strategy.order deviates c.msg c.site).check s.2.riskEngine).isSome :=
        PreTradeRiskEngine.checkOrder_isSome_of_range hrange
      obtain ⟨status,hstatus⟩ := Option.isSome_iff_exists.mp hchecks
      by_cases happroved : status = .approved
      · subst happroved
        obtain ⟨ok,ems,hems,_⟩ := h.onOrderSent hat hfree s.2.orderIdCounter c.msg.price.toUInt32 strategy.orderQty
        obtain ⟨gateway,taken,hsend,_⟩ := sendOrder_of_approved kernel hstatus hems
        rw [hsend]
        rfl
      · rw [sendOrder_of_rejected hstatus happroved]
        rfl
    · rfl

/-- Every stream of parsed messages, delivered to an engine with fewer market makers than entries in
its EMS, makes each of them hand over at most one order, a sale of its quantity to the bid that
triggered it; after every call the position is minus what the latched ones have sold. The stream is
worked off unless the quantities together leave the range of the position. -/
theorem run_no_runaway (maxOrders : ℕ) (config : RiskConfig) (kernel : KernelSend)
    (deviates : UInt32 → UInt32 → Bool) (strategies : List MarketMakerStrategy)
    (hfresh : ∀ strategy ∈ strategies, ∃ thresholdPrice orderQty symbol,
      strategy = MarketMakerStrategy.init thresholdPrice orderQty symbol)
    (hroom : strategies.length < 2 * maxOrders) (deliveries : List Delivery)
    (hparsed : ∀ d ∈ deliveries, d.msg.Parsed) :
    let start := (strategies,StrategyEngine.init maxOrders config)
    let calls := deliveries.flatMap (Delivery.calls strategies.length)
    (run (deliver kernel deviates) start deliveries).map (fun p => (p.1.flatten,p.2)) =
        (run (callStrategy kernel deviates) start calls).map (fun p => (p.1.flatten,p.2)) ∧
      ((strategies.map fun strategy => strategy.orderQty.toNat).sum < 2 ^ 63 →
        (run (deliver kernel deviates) start deliveries).isSome) ∧
      ∀ pre post, calls = pre ++ post → ∀ handed s,
        run (callStrategy kernel deviates) start pre = some (handed,s) → NoRunaway strategies pre handed s := by
  intro start calls
  have hsame : (run (deliver kernel deviates) start deliveries).map (fun p => (p.1.flatten,p.2)) =
      (run (callStrategy kernel deviates) start calls).map (fun p => (p.1.flatten,p.2)) :=
    run_deliver start deliveries
  have hstart : NoRunaway strategies [] [] start := by
    apply noRunaway_start
    intro strategy hmem
    obtain ⟨_,_,_,rfl⟩ := hfresh strategy hmem
    rfl
  have hcalls : ∀ c ∈ calls, c.msg.Parsed ∧ c.index < strategies.length := by
    intro c hc
    obtain ⟨d,hd,hc⟩ := List.mem_flatMap.mp hc
    obtain ⟨i,hi,rfl⟩ := List.mem_map.mp hc
    exact ⟨hparsed d hd,List.mem_range.mp hi⟩
  have hkept : ∀ pre post, calls = pre ++ post → ∀ handed s,
      run (callStrategy kernel deviates) start pre = some (handed,s) → NoRunaway strategies pre handed s := by
    intro pre post hsplit handed s hrun
    refine hstart.run (fun c hc => (hcalls c ?_).1) hrun
    rw [hsplit]
    exact List.mem_append_left post hc
  refine ⟨hsame,?_,hkept⟩
  intro hquantity
  have hreturns : (run (callStrategy kernel deviates) start calls).isSome := by
    rw [run_isSome_iff]
    intro pre c post hsplit handed s hrun
    have hno := hkept pre (c :: post) hsplit handed s hrun
    have hroomy : Roomy maxOrders s :=
      run_invariant (fun _ _ _ _ => Roomy.call) (roomy_start hroom config) hrun
    apply hroomy.callStrategy_isSome hno hquantity
    rw [hno.latch,List.length_mapIdx]
    exact (hcalls c (by rw [hsplit]; simp)).2
  have hsome := congrArg Option.isSome hsame
  rw [Option.isSome_map,Option.isSome_map,hreturns] at hsome
  exact hsome

/-- A bid for one share. -/
def bidMessage (price : UInt32) : Itch.Message :=
  .addOrder ⟨0,0,0,7⟩ 'B'.toUInt8 1 (.replicate 8 32) price

/-- The bid as the parser returns it. -/
def bidDelivery (price : UInt32) : Delivery :=
  ⟨(bidMessage price).internal ⟨0,0,0,0,.sell⟩,fun _ => ⟨fun _ => 0,3⟩⟩

/-- The lower of two market makers trades on the first bid, the other on the third; each order is
sent once, although every bid is at or above the lower threshold. -/
theorem run_no_runaway_three_bids :
    let strategies := [MarketMakerStrategy.init 90 10 ⟨[65],by decide⟩,MarketMakerStrategy.init 100 20 ⟨[66],by decide⟩]
    let calls := [bidDelivery 95,bidDelivery 95,bidDelivery 120].flatMap (Delivery.calls 2)
    ∃ p, run (callStrategy .takesAll fun _ _ => false) (strategies,StrategyEngine.init 4 ⟨100,100⟩) calls = some p ∧
      NoRunaway strategies calls p.1 p.2 ∧ p.2.2.riskEngine.currentPosition = -30 := by
  intro strategies calls
  refine exists_of_isSome (by decide +kernel) fun p hrun => ⟨?_,?_⟩
  · refine (run_no_runaway 4 ⟨100,100⟩ .takesAll (fun _ _ => false) strategies ?_ (by decide)
      [bidDelivery 95,bidDelivery 95,bidDelivery 120] ?_).2.2 calls [] (List.append_nil calls).symm p.1 p.2 hrun
    · exact List.forall_mem_cons.mpr ⟨⟨90,10,_,rfl⟩,List.forall_mem_singleton.mpr ⟨100,20,_,rfl⟩⟩
    · intro d hd
      simp only [List.mem_cons,List.not_mem_nil,or_false] at hd
      rcases hd with rfl | rfl | rfl <;> exact Itch.Message.internal_parsed (bidMessage _) ⟨0,0,0,0,.sell⟩
  · have hposition : (run (callStrategy .takesAll fun _ _ => false) (strategies,StrategyEngine.init 4 ⟨100,100⟩) calls).map
        (fun p => p.2.2.riskEngine.currentPosition) = some (-30) := by decide +kernel
    rw [hrun] at hposition
    exact Option.some.inj hposition

end TickToTrade
