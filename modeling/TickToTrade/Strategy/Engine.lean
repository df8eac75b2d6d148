import TickToTrade.Library.Decimal
import TickToTrade.Ems.Refinement
import TickToTrade.Risk.Model
import TickToTrade.Ouch.EnterOrder
import TickToTrade.Egress.Gateway

/-! The strategy engine: one order goes through the risk check, the EMS, the OUCH encoder, the
position update and the gateway, in this order and without a transaction. -/
namespace TickToTrade
open Bytes Ouch

/-- `snprintf(token, 15, "ORD%011lu", id)`, cut to what fits before the NUL. -/
def orderToken (id : UInt64) : CString where
  bytes := (['O'.toUInt8,'R'.toUInt8,'D'.toUInt8] ++ decimalPadded 11 id.toNat).take 14
  no_nul h := by
    rcases List.mem_append.mp (List.mem_of_mem_take h) with h | h
    · revert h
      decide
    · exact zero_notMem_decimalPadded 11 id.toNat h

/-- The arguments of `sendOrder` with what it meets outside the engine: the outcome of the
price-deviation test, the contents of its stack buffer, and the gateway's descriptor. -/
structure OrderRequest where
  side : UInt8
  shares : UInt32
  price : UInt32
  symbol : Option CString
  referencePrice : UInt32
  deviates : Bool
  ouchBuffer : ℕ → UInt8
  fd : ℤ

structure StrategyEngine where
  ems : ExecutionManagementSystem
  riskEngine : PreTradeRiskEngine
  tcpEgress : TCPEgressGateway
  orderIdCounter : UInt64

/-- What a call shows: the risk decision, the value returned, the bytes handed to the gateway and
how many of them the socket took. -/
structure SendOutcome where
  status : RiskCheckStatus
  returned : Bool
  handed : Option (List UInt8)
  taken : ℕ
  deriving DecidableEq, Repr

namespace OrderRequest

/-- The risk decision on the request. -/
def check (req : OrderRequest) (engine : PreTradeRiskEngine) : Option RiskCheckStatus :=
  engine.checkOrder req.side req.shares req.referencePrice req.deviates

def signedShares (req : OrderRequest) : ℤ := PreTradeRiskEngine.signedShares req.side req.shares

/-- The Enter Order for the request under an order id; the other fields take their defaults. -/
def enterOrder (req : OrderRequest) (id : UInt64) : EnterOrder where
  orderToken := some (orderToken id)
  buySell := req.side
  shares := req.shares
  stock := req.symbol
  price := req.price

end OrderRequest

namespace StrategyEngine

def init (maxOrders : ℕ) (config : RiskConfig) : StrategyEngine where
  ems := ExecutionManagementSystem.init maxOrders
  riskEngine := PreTradeRiskEngine.init config
  tcpEgress := TCPEgressGateway.init
  orderIdCounter := 1000

@[simp] lemma init_riskEngine (maxOrders : ℕ) (config : RiskConfig) :
    (init maxOrders config).riskEngine = PreTradeRiskEngine.init config := rfl

/-- `sendOrder`; the results of `onOrderSent` and of the gateway's `send` are not used. -/
def sendOrder (kernel : KernelSend) (s : StrategyEngine) (req : OrderRequest) :
    Option (SendOutcome × StrategyEngine) := do
  let status ← req.check s.riskEngine
  if status ≠ .approved then some (⟨status,false,none,0⟩,s)
  else
    let myOrderId := s.orderIdCounter
    let s := { s with orderIdCounter := myOrderId + 1 }
    let (_,ems) ← s.ems.onOrderSent myOrderId req.price req.shares
    let s := { s with ems := ems }
    let (encoded,ouchBuffer) := buildEnterOrder req.ouchBuffer 64 (req.enterOrder myOrderId)
    if encoded then
      let s := { s with riskEngine := s.riskEngine.updatePosition req.signedShares }
      let bytes := slice ouchBuffer 0 (packedSize enterOrderMsg)
      let (_,tcpEgress) ← s.tcpEgress.send kernel req.fd bytes
      some (⟨status,true,some bytes,tcpEgress.accepted.length - s.tcpEgress.accepted.length⟩,
        { s with tcpEgress := tcpEgress })
    else some (⟨status,false,none,0⟩,s)

/-- The 49 bytes that an approved request puts on the wire. -/
def wireBytes (req : OrderRequest) (id : UInt64) : List UInt8 :=
  slice (storeFields req.ouchBuffer 0 (req.enterOrder id).fields) 0 (packedSize enterOrderMsg)

variable {kernel : KernelSend} {s s' : StrategyEngine} {req : OrderRequest} {outcome : SendOutcome}

theorem sendOrder_of_rejected {status : RiskCheckStatus} (hcheck : req.check s.riskEngine = some status)
    (hstatus : status ≠ .approved) : s.sendOrder kernel req = some (⟨status,false,none,0⟩,s) := by
  simp [sendOrder,hcheck,hstatus]

/-- An approved request whose EMS call returns goes all the way, whatever the socket does. -/
theorem sendOrder_of_approved (kernel : KernelSend) (hcheck : req.check s.riskEngine = some .approved) {ok : Bool}
    {ems : ExecutionManagementSystem}
    (hems : s.ems.onOrderSent s.orderIdCounter req.price req.shares = some (ok,ems)) :
    ∃ gateway taken, s.sendOrder kernel req =
        some (⟨.approved,true,some (wireBytes req s.orderIdCounter),taken⟩,
          ⟨ems,s.riskEngine.updatePosition req.signedShares,gateway,s.orderIdCounter + 1⟩) ∧
      (taken = packedSize enterOrderMsg ↔
        0 ≤ req.fd ∧ kernel.Accepts s.tcpEgress.kernelCalls (packedSize enterOrderMsg)) := by
  have hlen : (wireBytes req s.orderIdCounter).length = packedSize enterOrderMsg := length_slice _ _ _
  have hne : wireBytes req s.orderIdCounter ≠ [] := by
    apply List.ne_nil_of_length_pos
    rw [hlen]
    decide
  obtain ⟨sent,gateway,k,hsend,haccepted,hk,_,hiff⟩ :=
    s.tcpEgress.send_spec kernel req.fd (wireBytes req s.orderIdCounter) hne
  have hencoded : buildEnterOrder req.ouchBuffer 64 (req.enterOrder s.orderIdCounter) =
      (true,storeFields req.ouchBuffer 0 (req.enterOrder s.orderIdCounter).fields) := if_neg (by decide)
  refine ⟨gateway,gateway.accepted.length - s.tcpEgress.accepted.length,?_,?_⟩
  · unfold wireBytes at hsend
    simp [sendOrder,hcheck,hems,hencoded,hsend,wireBytes]
  · rw [hlen] at hk hiff
    rw [haccepted,List.length_append,List.length_take,hlen,← hiff]
    omega

/-- Without an answer of the EMS an approved request does not return. -/
theorem sendOrder_of_stuck (hcheck : req.check s.riskEngine = some .approved)
    (hems : s.ems.onOrderSent s.orderIdCounter req.price req.shares = none) :
    s.sendOrder kernel req = none := by
  simp [sendOrder,hcheck,hems]

/-- Everything a returning call can do. -/
theorem sendOrder_cases (h : s.sendOrder kernel req = some (outcome,s')) :
    (∃ status, req.check s.riskEngine = some status ∧ status ≠ .approved ∧
      outcome = ⟨status,false,none,0⟩ ∧ s' = s) ∨
    ∃ ok ems gateway taken, req.check s.riskEngine = some .approved ∧
      s.ems.onOrderSent s.orderIdCounter req.price req.shares = some (ok,ems) ∧
      (taken = packedSize enterOrderMsg ↔
        0 ≤ req.fd ∧ kernel.Accepts s.tcpEgress.kernelCalls (packedSize enterOrderMsg)) ∧
      outcome = ⟨.approved,true,some (wireBytes req s.orderIdCounter),taken⟩ ∧
      s' = ⟨ems,s.riskEngine.updatePosition req.signedShares,gateway,s.orderIdCounter + 1⟩ := by
  cases hcheck : req.check s.riskEngine with
  | none => simp [sendOrder,hcheck] at h
  | some status =>
    by_cases hstatus : status = .approved
    · subst hstatus
      cases hems : s.ems.onOrderSent s.orderIdCounter req.price req.shares with
      | none =>
        rw [sendOrder_of_stuck hcheck hems] at h
        contradiction
      | some result =>
        obtain ⟨ok,ems⟩ := result
        obtain ⟨gateway,taken,hsend,htaken⟩ := sendOrder_of_approved kernel hcheck hems
        obtain ⟨rfl,rfl⟩ := Prod.mk.inj (Option.some.inj (h.symm.trans hsend))
        exact .inr ⟨ok,ems,gateway,taken,rfl,rfl,htaken,rfl,rfl⟩
    · rw [sendOrder_of_rejected hcheck hstatus] at h
      obtain ⟨rfl,rfl⟩ := Prod.mk.inj (Option.some.inj h)
      exact .inl ⟨status,rfl,hstatus,rfl,rfl⟩

/-- The exchange reads back the side, the shares and the price of the request. -/
theorem parse_wireBytes (req : OrderRequest) (id : UInt64) (outMsg : EnterOrderMsg) :
    parseEnterOrder (ofBytes (wireBytes req id)) (wireBytes req id).length outMsg =
      (true,(req.enterOrder id).message) := by
  have hlen : (wireBytes req id).length = packedSize enterOrderMsg := length_slice _ _ _
  have hsame : ∀ i < packedSize enterOrderMsg, ofBytes (wireBytes req id) i =
      storeFields req.ouchBuffer 0 (req.enterOrder id).fields i := fun i hi => ofBytes_slice hi
  rw [parseEnterOrder_congr outMsg hsame,hlen]
  exact parse_storeFields _ _ (le_refl _) outMsg

end StrategyEngine
end TickToTrade
