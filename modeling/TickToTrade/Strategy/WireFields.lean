import TickToTrade.Ouch.RoundTrip
import TickToTrade.Strategy.Coherence
import TickToTrade.Strategy.OneShot

/-! The two names that an order carries on the wire. The stock field is the strategy's symbol, which
passed through a buffer of seven characters and a NUL; the token field is the order id in decimal. -/
namespace TickToTrade
open Bytes Ouch StrategyEngine

/-- One buffer was handed over, and the exchange reads the symbol from it, padded to eight bytes. -/
def SentFor (symbol : CString) (handed : List (List UInt8)) : Prop :=
  ∃ bytes, handed = [bytes] ∧ ∀ prior, ∃ m, parseEnterOrder (ofBytes bytes) bytes.length prior = (true,m) ∧
    m.stock = inField (some symbol) 8

section Symbol
variable {kernel : KernelSend} {deviates : UInt32 → UInt32 → Bool} {msg : InternalMessage} {site : CallSite}
  {strategy u : MarketMakerStrategy} {s s' : StrategyEngine} {handed : List (List UInt8)}

/-- A strategy that is free and triggered sends its order when the risk engine approves it. -/
lemma MarketMakerStrategy.onMarketDataUpdate_of_approved (hfree : strategy.positionTaken = false)
    (hbid : msg.type = 'A'.toUInt8 ∧ msg.side = .buy ∧ strategy.thresholdPrice.toUInt64 ≤ msg.price)
    (hcheck : (strategy.order deviates msg site).check s.riskEngine = some .approved)
    (h : strategy.onMarketDataUpdate kernel deviates msg site s = some (handed,u,s')) :
    handed = [wireBytes (strategy.order deviates msg site) s.orderIdCounter] := by
  rw [onMarketDataUpdate,hfree,if_neg (by decide),if_pos hbid] at h
  obtain ⟨⟨outcome,s₁⟩,hsend,h⟩ := Option.bind_eq_some_iff.mp h
  rcases sendOrder_cases hsend with ⟨status,hstatus,hne,_⟩ | ⟨_,_,_,_,_,_,_,rfl,_⟩
  · rw [hcheck] at hstatus
    exact absurd (Option.some.inj hstatus).symm hne
  · obtain ⟨rfl,_⟩ := Prod.mk.inj (Option.some.inj h)
    rfl

/-- Its stock field is what the strategy kept of its symbol. -/
lemma sentFor_wireBytes_iff (symbol : CString) (id : UInt64) :
    SentFor symbol [wireBytes (strategy.order deviates msg site) id] ↔
      copyStringPadded (some strategy.symbol) 8 = copyStringPadded (some symbol) 8 := by
  rw [copyStringPadded_eq_inField (some symbol)]
  constructor
  · intro ⟨bytes,hbytes,hparse⟩
    obtain rfl := List.singleton_inj.mp hbytes
    obtain ⟨m,hm,hstock⟩ := hparse ⟨0,[],0,0,[],0,0,[],0,0,0,0,0,0⟩
    rw [parse_wireBytes] at hm
    obtain ⟨_,rfl⟩ := Prod.mk.inj hm
    exact hstock
  · intro hstock
    exact ⟨_,rfl,fun prior => ⟨_,parse_wireBytes _ id prior,hstock⟩⟩

/-- Seven characters are all of a symbol of at most eight bytes, up to a padding space. -/
lemma copyStringPadded_init_iff (thresholdPrice orderQty : UInt32) {symbol : CString}
    (hsymbol : symbol.bytes.length ≤ 8) :
    copyStringPadded (some (MarketMakerStrategy.init thresholdPrice orderQty symbol).symbol) 8 =
        copyStringPadded (some symbol) 8 ↔
      symbol.bytes.length < 8 ∨ symbol.bytes[7]? = some ' '.toUInt8 := by
  simp only [copyStringPadded,MarketMakerStrategy.init]
  by_cases hshort : symbol.bytes.length < 8
  · rw [List.take_of_length_le (by omega : symbol.bytes.length ≤ 7)]
    simp [hshort]
  · -- the eighth character is lost, and a space stands in its place
    obtain ⟨front,last,hbytes⟩ := (List.eq_nil_or_concat symbol.bytes).resolve_left (by
      intro hnil
      simp [hnil] at hshort)
    rw [List.concat_eq_append] at hbytes
    have hfront : front.length = 7 := by
      rw [hbytes,List.length_append,List.length_singleton] at hsymbol hshort
      omega
    rw [hbytes,List.take_left' hfront,List.take_of_length_le (by omega : front.length ≤ 8),
      List.take_of_length_le (by simp [hfront])]
    simp [hfront,eq_comm]

/-- The order of a triggered and approved market maker is for its symbol of at most eight bytes if
and only if the symbol is shorter or ends with a space. -/
theorem symbol_sent_iff (thresholdPrice orderQty : UInt32) (symbol : CString) (hsymbol : symbol.bytes.length ≤ 8)
    (kernel : KernelSend) (deviates : UInt32 → UInt32 → Bool) (msg : InternalMessage) (site : CallSite)
    (s s' : StrategyEngine) (u : MarketMakerStrategy) (handed : List (List UInt8))
    (hbid : msg.type = 'A'.toUInt8 ∧ msg.side = .buy ∧ thresholdPrice.toUInt64 ≤ msg.price)
    (hcheck : ((MarketMakerStrategy.init thresholdPrice orderQty symbol).order deviates msg site).check s.riskEngine =
      some .approved)
    (hcall : (MarketMakerStrategy.init thresholdPrice orderQty symbol).onMarketDataUpdate kernel deviates msg site s =
      some (handed,u,s')) :
    SentFor symbol handed ↔ symbol.bytes.length < 8 ∨ symbol.bytes[7]? = some ' '.toUInt8 := by
  rw [MarketMakerStrategy.onMarketDataUpdate_of_approved rfl hbid hcheck hcall,sentFor_wireBytes_iff,
    copyStringPadded_init_iff thresholdPrice orderQty hsymbol]

/-- A bid above the threshold, for a market maker in `AAPL`. -/
theorem symbol_sent_iff_aapl :
    let symbol : CString := ⟨[65,65,80,76],by decide⟩
    let site : CallSite := ⟨fun _ => 0,3⟩
    ∃ p, (MarketMakerStrategy.init 90 10 symbol).onMarketDataUpdate .takesAll (fun _ _ => false)
        ⟨'A'.toUInt8,7,95,1,.buy⟩ site (StrategyEngine.init 4 ⟨100,100⟩) = some p ∧ SentFor symbol p.1 := by
  intro symbol site
  refine exists_of_isSome (by decide +kernel) fun p hcall => ?_
  exact (symbol_sent_iff 90 10 symbol (by decide) .takesAll (fun _ _ => false) ⟨'A'.toUInt8,7,95,1,.buy⟩ site _ p.2.2
    p.2.1 p.1 (by decide) (by decide) hcall).mpr (.inl (by decide))

/-- A symbol of eight letters is sent without its last one. -/
theorem symbol_cut :
    let symbol : CString := ⟨[65,66,67,68,69,70,71,72],by decide⟩
    let site : CallSite := ⟨fun _ => 0,3⟩
    ∃ p, (MarketMakerStrategy.init 90 10 symbol).onMarketDataUpdate .takesAll (fun _ _ => false)
        ⟨'A'.toUInt8,7,95,1,.buy⟩ site (StrategyEngine.init 4 ⟨100,100⟩) = some p ∧ ¬ SentFor symbol p.1 := by
  intro symbol site
  refine exists_of_isSome (by decide +kernel) fun p hcall => ?_
  rw [MarketMakerStrategy.onMarketDataUpdate_of_approved rfl (by decide) (by decide) hcall,sentFor_wireBytes_iff,
    copyStringPadded_init_iff 90 10 (by decide)]
  decide

end Symbol

/-- The token field that the exchange reads from a buffer. -/
def wireToken (prior : EnterOrderMsg) (bytes : List UInt8) : List UInt8 :=
  (parseEnterOrder (ofBytes bytes) bytes.length prior).2.orderToken

/-- A call of `sendOrder` with the components as it finds them: the engine holds references to them,
and between two calls others may have used them. -/
structure EngineCall where
  ems : ExecutionManagementSystem
  riskEngine : PreTradeRiskEngine
  tcpEgress : TCPEgressGateway
  request : OrderRequest

namespace StrategyEngine

/-- The counter is the engine's own. -/
def call (kernel : KernelSend) (s : StrategyEngine) (c : EngineCall) : Option (SendOutcome × StrategyEngine) :=
  sendOrder kernel ⟨c.ems,c.riskEngine,c.tcpEgress,s.orderIdCounter⟩ c.request

/-- The buffers of a run, in the order in which they were handed to the gateway. -/
def handedOf (outcomes : List SendOutcome) : List (List UInt8) := outcomes.filterMap SendOutcome.handed

end StrategyEngine

section Token
variable {kernel : KernelSend} {s s' : StrategyEngine}

lemma length_decimalPadded_token {id : UInt64} (hid : id.toNat < 10 ^ 11) :
    (decimalPadded 11 id.toNat).length = 11 := by
  have hle := length_decimalPadded_le (Nat.le_refl 11) hid
  simp only [decimalPadded,List.length_leftpad] at hle ⊢
  omega

/-- Eleven digits fill the token exactly. -/
lemma wireToken_wireBytes (req : OrderRequest) {id : UInt64} (hid : id.toNat < 10 ^ 11) (prior : EnterOrderMsg) :
    wireToken prior (wireBytes req id) = ['O'.toUInt8,'R'.toUInt8,'D'.toUInt8] ++ decimalPadded 11 id.toNat := by
  have hlength : (['O'.toUInt8,'R'.toUInt8,'D'.toUInt8] ++ decimalPadded 11 id.toNat).length = 14 := by
    rw [List.length_append,length_decimalPadded_token hid]
    rfl
  have htoken : (orderToken id).bytes = ['O'.toUInt8,'R'.toUInt8,'D'.toUInt8] ++ decimalPadded 11 id.toNat :=
    List.take_of_length_le hlength.le
  rw [wireToken,parse_wireBytes]
  have hcopy := copyStringPadded_of_prefix (List.prefix_refl (orderToken id).bytes)
  rwa [htoken,hlength] at hcopy

lemma toNat_nthOrderId {k : ℕ} (hk : k < 10 ^ 11) : (nthOrderId k).toNat = 1000 + k := by
  rw [nthOrderId,UInt64.toNat_add,UInt64.toNat_ofNat']
  have hthousand : (1000 : UInt64).toNat = 1000 := rfl
  omega

/-- From the id at which the counter stands, the tokens of a run count on. -/
lemma run_wireTokens (prior : EnterOrderMsg) (calls : List EngineCall) {k : ℕ} {outcomes : List SendOutcome}
    (hcounter : s.orderIdCounter = nthOrderId k) (h : run (call kernel) s calls = some (outcomes,s'))
    (hids : 1000 + k + (outcomes.countP fun outcome => outcome.status = .approved) ≤ 10 ^ 11) :
    (handedOf outcomes).map (wireToken prior) =
      (List.range' k (outcomes.countP fun outcome => outcome.status = .approved)).map fun i =>
        ['O'.toUInt8,'R'.toUInt8,'D'.toUInt8] ++ decimalPadded 11 (1000 + i) := by
  induction calls generalizing s k outcomes with
  | nil =>
    obtain ⟨rfl,rfl⟩ := Prod.mk.inj (Option.some.inj h)
    rfl
  | cons c calls ih =>
    obtain ⟨outcome,s₁,outcomes,hsend,hrun,rfl⟩ := run_cons_eq_some.mp h
    rcases sendOrder_cases hsend with ⟨status,_,hstatus,rfl,rfl⟩ | ⟨ok,ems,gateway,taken,_,_,_,rfl,rfl⟩
    · rw [List.countP_cons_of_neg (by simpa using hstatus)] at hids ⊢
      exact ih (s := ⟨c.ems,c.riskEngine,c.tcpEgress,s.orderIdCounter⟩) hcounter hrun hids
    · rw [List.countP_cons_of_pos (by simp)] at hids ⊢
      have hnext : s.orderIdCounter + 1 = nthOrderId (k + 1) := by rw [hcounter,nthOrderId_succ]
      have htokens := ih (k := k + 1) hnext hrun (by omega)
      have hid := toNat_nthOrderId (by omega : k < 10 ^ 11)
      have hlt : (nthOrderId k).toNat < 10 ^ 11 := by omega
      have hfirst := wireToken_wireBytes c.request hlt prior
      rw [hid] at hfirst
      rw [List.range'_succ,List.map_cons,← htokens,← hfirst,← hcounter]
      rfl

end Token

/-- Every token on the wire is `ORD` and the eleven decimal digits of its order id, which can be read
back from it; so the tokens of a run of fewer than 10 ^ 11 - 1000 approved orders are all different. -/
theorem tokens_identify_orders :
    (∀ (req : OrderRequest) (id : UInt64) prior, id.toNat < 10 ^ 11 →
      ∃ digits, wireToken prior (wireBytes req id) = ['O'.toUInt8,'R'.toUInt8,'D'.toUInt8] ++ digits ∧ digits.length = 11 ∧
        (∀ b ∈ digits, 48 ≤ b.toNat ∧ b.toNat ≤ 57) ∧ decimalValue digits = id.toNat) ∧
    ∀ maxOrders config kernel calls outcomes s prior,
      run (call kernel) (StrategyEngine.init maxOrders config) calls = some (outcomes,s) →
      (outcomes.countP fun outcome => outcome.status = .approved) < 10 ^ 11 - 1000 →
      ((handedOf outcomes).map (wireToken prior)).Nodup := by
  constructor
  · intro req id prior hid
    exact ⟨_,wireToken_wireBytes req hid prior,length_decimalPadded_token hid,
      fun _ hb => digit_of_mem_decimalPadded hb,decimalValue_decimalPadded 11 id.toNat⟩
  · intro maxOrders config kernel calls outcomes s prior hrun hfew
    rw [run_wireTokens prior calls (k := 0) rfl hrun (by omega)]
    refine List.Nodup.map ?_ List.nodup_range'
    intro i j htoken
    have hvalue := congrArg decimalValue (List.append_cancel_left htoken)
    rw [decimalValue_decimalPadded,decimalValue_decimalPadded] at hvalue
    omega

/-- A buy and a sell, with everything else as at the start. -/
theorem tokens_identify_orders_two :
    let s := StrategyEngine.init 2 ⟨100,100⟩
    let calls : List EngineCall := [⟨s.ems,s.riskEngine,s.tcpEgress,aaplOrder 66 60 3⟩,
      ⟨s.ems,s.riskEngine,s.tcpEgress,aaplOrder 83 30 3⟩]
    let prior : EnterOrderMsg := ⟨0,[],0,0,[],0,0,[],0,0,0,0,0,0⟩
    (∃ p, run (call .takesAll) s calls = some p ∧ (handedOf p.1).length = 2 ∧
      ((handedOf p.1).map (wireToken prior)).Nodup) ∧
    ∃ digits, wireToken prior (wireBytes (aaplOrder 66 60 3) 1000) =
      ['O'.toUInt8,'R'.toUInt8,'D'.toUInt8] ++ digits ∧ digits.length = 11 ∧ decimalValue digits = 1000 := by
  intro s calls prior
  obtain ⟨hfield,hdistinct⟩ := tokens_identify_orders
  constructor
  · refine exists_of_isSome (by decide +kernel) fun p hrun => ?_
    have hhanded : (run (call .takesAll) s calls).map (fun p => (handedOf p.1).length) = some 2 := by decide +kernel
    rw [hrun] at hhanded
    have hlength : p.1.length = 2 := run_length hrun
    have hle := p.1.countP_le_length (p := fun outcome => outcome.status = .approved)
    exact ⟨Option.some.inj hhanded,hdistinct 2 ⟨100,100⟩ .takesAll calls p.1 p.2 prior hrun (by omega)⟩
  · obtain ⟨digits,hdigits,hlength,_,hvalue⟩ := hfield (aaplOrder 66 60 3) 1000 prior (by decide)
    exact ⟨digits,hdigits,hlength,hvalue⟩

end TickToTrade
