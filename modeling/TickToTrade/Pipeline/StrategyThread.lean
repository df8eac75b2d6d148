import TickToTrade.Ouch.EnterOrder
import TickToTrade.Pipeline.Progress
import TickToTrade.Risk.Deviation

/-! The consumer of the tick-to-trade benchmark. It books the message; for an add order above 15050
it sells 100 shares at that price, if the risk check lets it. No execution ever comes back, so the
position only falls, and the check lets exactly one hundred sales through. -/
namespace TickToTrade

/-- The variables of the thread; `trades` is the number of latencies that it has collected. -/
structure StrategyThread where
  lob : LimitOrderBook
  riskEngine : PreTradeRiskEngine
  ouchBuffer : ℕ → UInt8
  trades : ℕ

/-- The strategy's signal. -/
def InternalMessage.Signals (msg : InternalMessage) : Prop := msg.type = 'A'.toUInt8 ∧ 15050 < msg.price

instance (msg : InternalMessage) : Decidable msg.Signals := inferInstanceAs (Decidable (_ ∧ _))

namespace StrategyThread
open PreTradeRiskEngine Ouch Bytes Itch Generator

def config : RiskConfig := ⟨500,10000⟩

/-- The double that is written `0.05`. -/
def maxPriceDeviationPct : ℚ := toDouble (5 / 100)

def init (lob : LimitOrderBook) (ouchBuffer : ℕ → UInt8) : StrategyThread :=
  ⟨lob,PreTradeRiskEngine.init config,ouchBuffer,0⟩

/-- The switch of the thread: only adds and deletes. -/
def bookDispatch (lob : LimitOrderBook) (msg : InternalMessage) : Option LimitOrderBook :=
  if msg.type = 'A'.toUInt8 then
    (lob.add msg.id msg.side msg.price msg.quantity).map Prod.snd
  else if msg.type = 'D'.toUInt8 then (lob.cancel msg.id).map Prod.snd
  else some lob

lemma firm_no_nul : 0 ∉ ['T'.toUInt8,'E'.toUInt8,'S'.toUInt8,'T'.toUInt8] := by decide

def order (orderShares orderPrice : UInt32) : EnterOrder where
  orderToken := some ⟨"ORD12345".toList.map Char.toUInt8,by decide⟩
  buySell := 'S'.toUInt8
  shares := orderShares
  stock := some ⟨"AAPL".toList.map Char.toUInt8,by decide⟩
  price := orderPrice
  firm := some ⟨['T'.toUInt8,'E'.toUInt8,'S'.toUInt8,'T'.toUInt8],firm_no_nul⟩ -- the default

/-- What the thread does with one popped message. -/
def dispatch (s : StrategyThread) (msg : InternalMessage) : Option StrategyThread := do
  let lob ← bookDispatch s.lob msg
  let s := { s with lob := lob }
  if msg.Signals then
    let orderShares : UInt32 := 100
    let orderPrice := msg.price.toUInt32
    let status ← s.riskEngine.checkPricedOrder maxPriceDeviationPct 'S'.toUInt8 orderShares orderPrice
      msg.price.toUInt32
    if status = .approved then
      let (encoded,ouchBuffer) := buildEnterOrder s.ouchBuffer 64 (order orderShares orderPrice)
      if encoded then
        some { s with
          ouchBuffer := ouchBuffer
          riskEngine := s.riskEngine.updatePosition (-(orderShares.toNat : ℤ))
          trades := s.trades + 1 }
      else some { s with ouchBuffer := ouchBuffer }
    else some s
  else some s

/-- The thread after the signals `signals`: the first hundred of them are sold, and the buffer holds
the order of the last one sold. -/
structure Traded (signals : List InternalMessage) (s : StrategyThread) : Prop where
  trades : s.trades = min 100 signals.length
  riskEngine : s.riskEngine = ⟨config,-100 * (s.trades : ℤ)⟩
  sent : ∀ msg, (signals.take 100).getLast? = some msg →
    slice s.ouchBuffer 0 49 = (order 100 msg.price.toUInt32).wire

lemma traded_init (lob : LimitOrderBook) (ouchBuffer : ℕ → UInt8) : Traded [] (init lob ouchBuffer) where
  trades := rfl
  riskEngine := rfl
  sent := by simp

lemma maxPriceDeviationPct_nonneg : 0 ≤ maxPriceDeviationPct := by
  have hmono := Rounding.roundTo_mono (p := 53) (by norm_num) (le_refl (0 : ℚ)) (by norm_num : (0 : ℚ) ≤ 5 / 100)
  rwa [Rounding.roundTo_zero] at hmono

/-- The check against the price itself depends on the number of sales alone. -/
lemma checkPricedOrder_sell {trades : ℕ} (htrades : trades ≤ 100) (price : UInt32) :
    checkPricedOrder ⟨config,-100 * (trades : ℤ)⟩ maxPriceDeviationPct 'S'.toUInt8 100 price price =
      some (if trades < 100 then .approved else .rejectedMaxPosition) := by
  have hside : signedShares 'S'.toUInt8 100 = -100 := by decide
  have habs : |-100 * (trades : ℤ) + -100| = 100 * (trades : ℤ) + 100 := by
    rw [abs_of_nonpos (by omega)]
    ring
  rw [checkPricedOrder,deviates_self maxPriceDeviationPct_nonneg,checkOrder]
  simp only [config,hside,habs,Bool.false_eq_true,and_false,if_false]
  rw [if_neg (by decide),if_pos (by omega)]
  by_cases hlt : trades < 100
  · rw [if_neg (by omega),if_pos hlt]
  · rw [if_pos (by omega),if_neg hlt]

variable {s s' : StrategyThread} {seen : List InternalMessage} {msg : InternalMessage} {lob : LimitOrderBook}

/-- One message: the switch alone decides whether it returns, and a signal is sold while fewer than
one hundred were. -/
theorem Traded.dispatch (h : Traded seen s) (hlob : bookDispatch s.lob msg = some lob) :
    ∃ s', s.dispatch msg = some s' ∧ s'.lob = lob ∧ Traded (seen ++ [msg].filter (·.Signals)) s' := by
  by_cases hsignal : msg.Signals
  · have htrades := h.trades
    have hcheck := checkPricedOrder_sell (by omega : s.trades ≤ 100) msg.price.toUInt32
    rw [← h.riskEngine] at hcheck
    have hfilter : [msg].filter (·.Signals) = [msg] := by simp [hsignal]
    rw [hfilter]
    by_cases hlt : s.trades < 100
    · have hlength : seen.length < 100 := by omega
      rw [if_pos hlt] at hcheck
      obtain ⟨hbuilt,hwire⟩ := (order 100 msg.price.toUInt32).slice_buildEnterOrder s.ouchBuffer (by decide : 49 ≤ 64)
      refine ⟨⟨lob,s.riskEngine.updatePosition (-100),
        (buildEnterOrder s.ouchBuffer 64 (order 100 msg.price.toUInt32)).2,s.trades + 1⟩,?_,rfl,?_,?_,?_⟩
      · simp only [StrategyThread.dispatch,hlob,Option.bind_eq_bind,Option.bind_some,if_pos hsignal,hcheck,hbuilt,if_true]
        rfl
      · simp only [List.length_append,List.length_singleton]
        omega
      · have hexact : (s.riskEngine.updatePosition (-100)).currentPosition = s.riskEngine.currentPosition + -100 := by
          apply updatePosition_exact
          rw [h.riskEngine,abs_lt]
          dsimp only
          constructor <;> omega
        have hposition : s.riskEngine.updatePosition (-100) =
            ⟨s.riskEngine.config,(s.riskEngine.updatePosition (-100)).currentPosition⟩ := rfl
        dsimp only
        rw [hposition,hexact,h.riskEngine]
        simp only [PreTradeRiskEngine.mk.injEq,true_and]
        push_cast
        ring
      · intro last hlast
        rw [List.take_of_length_le (by simp; omega),List.getLast?_concat] at hlast
        obtain rfl := Option.some.inj hlast
        exact hwire
    · have hlength : 100 ≤ seen.length := by omega
      rw [if_neg hlt] at hcheck
      refine ⟨{ s with lob := lob },?_,rfl,?_,h.riskEngine,?_⟩
      · simp [StrategyThread.dispatch,hlob,hsignal,hcheck]
      · simp only [List.length_append,List.length_singleton]
        omega
      · rw [List.take_append_of_le_length hlength]
        exact h.sent
  · have hfilter : [msg].filter (·.Signals) = [] := by simp [hsignal]
    rw [hfilter,List.append_nil]
    exact ⟨{ s with lob := lob },by simp [StrategyThread.dispatch,hlob,hsignal],rfl,h.trades,h.riskEngine,h.sent⟩

lemma dispatch_eq_none (hlob : bookDispatch s.lob msg = none) : s.dispatch msg = none := by
  simp [StrategyThread.dispatch,hlob]

theorem Traded.run (h : Traded seen s) (msgs : List InternalMessage) :
    (msgs.foldlM StrategyThread.dispatch s).map StrategyThread.lob = consume bookDispatch s.lob msgs ∧
    ∀ s', msgs.foldlM StrategyThread.dispatch s = some s' → Traded (seen ++ msgs.filter (·.Signals)) s' := by
  induction msgs generalizing s seen with
  | nil =>
    refine ⟨rfl,fun s' hs' => ?_⟩
    obtain rfl := Option.some.inj hs'
    simpa using h
  | cons msg msgs ih =>
    rw [consume,List.foldlM_cons,List.foldlM_cons]
    cases hlob : bookDispatch s.lob msg with
    | none => simp [dispatch_eq_none hlob]
    | some lob =>
      obtain ⟨s₁,hs₁,rfl,hnext⟩ := h.dispatch hlob
      obtain ⟨hbook,htraded⟩ := ih hnext
      rw [hs₁]
      refine ⟨hbook,fun s' hs' => ?_⟩
      have hfilter : seen ++ [msg].filter (·.Signals) ++ msgs.filter (·.Signals) =
          seen ++ (msg :: msgs).filter (·.Signals) := by
        rw [List.append_assoc,← List.filter_append,List.singleton_append]
      rw [← hfilter]
      exact htraded s' hs'

/-- An add order of the generator above the threshold. -/
def signals : Message → Bool
  | .addOrder _ _ _ _ price => 15050 < price
  | _ => false

lemma signals_internal (message : Message) (prior : InternalMessage) :
    decide (message.internal prior).Signals = signals message := by
  cases message with
  | addOrder header buySellIndicator shares stock price =>
    have hprice : 15050 < price.toUInt64 ↔ 15050 < price := by
      rw [UInt64.lt_iff_toNat_lt,UInt32.lt_iff_toNat_lt,UInt32.toNat_toUInt64]
      rfl
    simp [Message.internal,InternalMessage.Signals,signals,hprice]
  | orderCancel => exact decide_eq_false fun h => absurd h.1 (by decide : 'X'.toUInt8 ≠ 'A'.toUInt8)
  | orderDelete => exact decide_eq_false fun h => absurd h.1 (by decide : 'D'.toUInt8 ≠ 'A'.toUInt8)
  | orderExecuted => exact decide_eq_false fun h => absurd h.1 (by decide : 'E'.toUInt8 ≠ 'A'.toUInt8)
  | orderExecutedWithPrice => exact decide_eq_false fun h => absurd h.1 (by decide : 'C'.toUInt8 ≠ 'A'.toUInt8)

/-- Every message of this benchmark's generator is an add or a delete. -/
def AddOrDelete : Message → Prop
  | .addOrder .. => True
  | .orderDelete .. => True
  | _ => False

lemma addOrDelete_iterate (i : ℕ) (g : Generator.State) (draw : Draw) : AddOrDelete (iterate 50 50 i g draw).1 := by
  unfold iterate
  split
  · trivial
  · rename_i h
    have haction : ¬ draw.action.val < 50 := fun hlt => h (.inl hlt)
    dsimp only
    rw [if_neg haction,if_neg haction]
    trivial

lemma addOrDelete_generate (i : ℕ) (g : Generator.State) (draws : List Draw) :
    ∀ message ∈ (generate 50 50 i g draws).1, AddOrDelete message := by
  induction draws generalizing i g with
  | nil => simp [generate]
  | cons draw draws ih =>
    rw [generate]
    exact List.forall_mem_cons.mpr ⟨addOrDelete_iterate i g draw,ih _ _⟩

/-- On adds and deletes the two benchmarks do the same to the book. -/
lemma bookDispatch_eq {message : Message} (h : AddOrDelete message) (lob : LimitOrderBook) (prior : InternalMessage) :
    bookDispatch lob (message.internal prior) = pipelineDispatch lob (message.internal prior) := by
  cases message with
  | addOrder | orderDelete => rfl
  | orderCancel | orderExecuted | orderExecutedWithPrice => exact h.elim

/-- What the producer gets out of encoded messages, one by one. -/
lemma parsed_encode (messages : List Message) (parsedMsg : InternalMessage) :
    List.Forall₂ (fun message msg => ∃ prior, msg = message.internal prior) messages
      (parsed parsedMsg (messages.map Message.encode)) := by
  induction messages generalizing parsedMsg with
  | nil => exact .nil
  | cons message messages ih =>
    have hparse := parse_encode message [] parsedMsg
    rw [List.append_nil] at hparse
    rw [List.map_cons,parsed,hparse]
    exact .cons ⟨parsedMsg,rfl⟩ (ih _)

lemma length_filter_signals {messages : List Message} {msgs : List InternalMessage}
    (h : List.Forall₂ (fun message msg => ∃ prior, msg = message.internal prior) messages msgs) :
    (msgs.filter (·.Signals)).length = messages.countP signals := by
  induction h with
  | nil => rfl
  | cons hmsg _ ih =>
    obtain ⟨prior,rfl⟩ := hmsg
    rw [List.filter_cons,List.countP_cons,signals_internal]
    split <;> simp [ih]

lemma consume_bookDispatch {messages : List Message} {msgs : List InternalMessage}
    (h : List.Forall₂ (fun message msg => ∃ prior, msg = message.internal prior) messages msgs)
    (hall : ∀ message ∈ messages, AddOrDelete message) (lob : LimitOrderBook) :
    consume bookDispatch lob msgs = consume pipelineDispatch lob msgs := by
  induction h generalizing lob with
  | nil => rfl
  | cons hmsg _ ih =>
    obtain ⟨prior,rfl⟩ := hmsg
    obtain ⟨hfirst,hrest⟩ := List.forall_mem_cons.mp hall
    rw [consume,consume,List.foldlM_cons,List.foldlM_cons,bookDispatch_eq hfirst]
    congr 1
    funext lob'
    exact ih hrest lob'

/-- The tick-to-trade benchmark on its own data: whatever is drawn and however the threads are
scheduled it can always come to its end. At every point the position is minus one hundred shares for
each sale and there are at most one hundred sales. At the end exactly the first hundred signals are
sold, the buffer holds the order of the last of them, and the book holds exactly the active orders. -/
theorem tickToTrade_completes (capacity maxOrders maxPrice : ℕ) (hcap : 2 ≤ capacity) (hmax : 1 ≤ maxOrders)
    (hprice : 15100 ≤ maxPrice) (draws : List Draw) (hroom : draws.length ≤ maxOrders)
    (hids : draws.length + 1 < 2 ^ 64) (parsedMsg : InternalMessage) (data : ℕ → InternalMessage)
    (ouchBuffer : ℕ → UInt8) (actions : List Benchmark.Action) (us : List Unit) (s : Benchmark.State StrategyThread) :
    let (messages,g) := generateTickToTrade draws
    let buffers := messages.map Message.encode
    let next := Benchmark.step capacity draws.length StrategyThread.dispatch
    TickToTrade.run next
        (Benchmark.init buffers parsedMsg data (init (LimitOrderBook.init maxOrders maxPrice) ouchBuffer)) actions =
      some (us,s) →
    (∃ actions us t, TickToTrade.run next s actions = some (us,t) ∧ t.consumer = .exited) ∧
    (s.work.riskEngine.currentPosition = -100 * (s.work.trades : ℤ) ∧ s.work.trades ≤ 100) ∧
    (s.consumer = .exited →
      s.work.trades = min 100 (messages.countP signals) ∧
      (∀ msg, (((parsed parsedMsg buffers).filter (·.Signals)).take 100).getLast? = some msg →
        slice s.work.ouchBuffer 0 49 = (order 100 msg.price.toUInt32).wire) ∧
      ∀ id q, (∃ x, s.work.lob.getOrder id = some (some x) ∧ (s.work.lob.orderPool x).quantity = q) ↔
        ∃ ao ∈ g.activeOrders, ao.id = id ∧ ao.remainingShares.toUInt64 = q) := by
  have hvalid := generated_stream_valid 50 50 maxOrders maxPrice hmax hprice draws hroom hids parsedMsg
  have hmessages := Benchmark.length_generate 50 50 0 Generator.init draws
  have hkinds := addOrDelete_generate 0 Generator.init draws
  rw [generateTickToTrade]
  generalize generate 50 50 0 Generator.init draws = outcome at hvalid hmessages hkinds ⊢
  obtain ⟨messages,g⟩ := outcome
  obtain ⟨hlength,_,lob,hconsume,horders⟩ := hvalid
  dsimp only at hkinds ⊢
  intro hrun
  have hparsed := parsed_encode messages parsedMsg
  rw [← consume_bookDispatch hparsed hkinds] at hconsume
  have hbuffers : (messages.map Message.encode).length = draws.length := by rw [List.length_map,hmessages]
  have hstart := traded_init (LimitOrderBook.init maxOrders maxPrice) ouchBuffer
  obtain ⟨hbook,htraded⟩ := hstart.run (parsed parsedMsg (messages.map Message.encode))
  have hreturns : ((parsed parsedMsg (messages.map Message.encode)).foldlM StrategyThread.dispatch
      (init (LimitOrderBook.init maxOrders maxPrice) ouchBuffer)).isSome := by
    rw [← Option.isSome_map (f := StrategyThread.lob),hbook]
    exact Option.isSome_of_eq_some hconsume
  rw [← hbuffers] at hrun ⊢
  obtain ⟨hexit,hreach⟩ := Benchmark.exit_reachable_iff hcap hreturns hrun
  obtain ⟨done,content,htracks⟩ := Benchmark.tracks_of_run hcap hrun
  have hnow := (hstart.run done).2 _ htracks.worked
  have htrades := hnow.trades
  refine ⟨hreach.mpr (by rw [hlength,hbuffers]),⟨by rw [hnow.riskEngine],by omega⟩,fun hpc => ?_⟩
  obtain ⟨hwork,_⟩ := hexit hpc
  have hend := htraded _ hwork
  rw [hwork,Option.map_some] at hbook
  obtain rfl := Option.some.inj (hconsume.symm.trans hbook.symm)
  refine ⟨?_,hend.sent,horders⟩
  rw [hend.trades,List.nil_append,length_filter_signals hparsed]

/-- Fifty-two adds: only the last one is above the threshold, and some schedule ends with its sale. -/
theorem tickToTrade_completes_one_sale :
    let draws : List Draw := List.replicate 52 ⟨0,0,⟨List.replicate 8 0,rfl⟩⟩
    let buffers := (generateTickToTrade draws).1.map Message.encode
    let start := init (LimitOrderBook.init 52 15100) fun _ => 0
    ∃ actions us t, TickToTrade.run (Benchmark.step 4 draws.length StrategyThread.dispatch)
        (Benchmark.init buffers ⟨0,0,0,0,.buy⟩ (fun _ => ⟨0,0,0,0,.buy⟩) start) actions = some (us,t) ∧
      t.work.trades = 1 ∧ t.work.riskEngine.currentPosition = -100 := by
  intro draws buffers start
  have hcompletes := tickToTrade_completes 4 52 15100 (by decide) (by decide) (by decide) draws (by decide) (by decide)
    ⟨0,0,0,0,.buy⟩ (fun _ => ⟨0,0,0,0,.buy⟩) fun _ => 0
  obtain ⟨actions,us,t,hrun,hexit⟩ := (hcompletes [] [] _ rfl).1
  obtain ⟨_,⟨hposition,_⟩,hend⟩ := hcompletes actions us t hrun
  have hone : min 100 ((generateTickToTrade draws).1.countP signals) = 1 := by decide +kernel
  have htrades : t.work.trades = 1 := (hend hexit).1.trans hone
  exact ⟨actions,us,t,hrun,htrades,by rw [hposition,htrades]; rfl⟩

end StrategyThread
end TickToTrade
