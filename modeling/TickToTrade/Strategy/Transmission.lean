import TickToTrade.Strategy.Coherence

/-! What `sendOrder` reports and counts against what the socket took. The result of the gateway is
dropped, so a call reports every approved order as sent; the position counts every approved order. -/
namespace TickToTrade
open Bytes Ouch

/-- The order was approved and the socket took the whole `EnterOrderMsg`. -/
def SendOutcome.Transmitted (outcome : SendOutcome) : Prop :=
  outcome.status = .approved ∧ outcome.taken = packedSize enterOrderMsg

instance (outcome : SendOutcome) : Decidable outcome.Transmitted := inferInstanceAs (Decidable (_ ∧ _))

namespace StrategyEngine

/-- The requests of a run whose messages the socket took. -/
def transmittedOf (requests : List OrderRequest) (outcomes : List SendOutcome) : List OrderRequest :=
  ((requests.zip outcomes).filter fun p => p.2.Transmitted).map Prod.fst

/-- An order counts as sent, in the answer and in the position, exactly when it was transmitted. -/
structure CountsTransmitted (requests : List OrderRequest) (outcomes : List SendOutcome)
    (s : StrategyEngine) : Prop where
  returned : ∀ outcome ∈ outcomes, outcome.returned = true ↔ outcome.Transmitted
  position : s.riskEngine.currentPosition = ((transmittedOf requests outcomes).map fun req =>
    if req.side = 'B'.toUInt8 then (req.shares.toNat : ℤ) else -(req.shares.toNat : ℤ)).sum

/-- If the risk engine approves the request, there is a socket and the kernel takes all 49 bytes
without an error. -/
def SocketTakes (kernel : KernelSend) (s : StrategyEngine) (req : OrderRequest) : Prop :=
  req.check s.riskEngine = some .approved →
    0 ≤ req.fd ∧ kernel.Accepts s.tcpEgress.kernelCalls (packedSize enterOrderMsg)

variable {kernel : KernelSend} {s s' : StrategyEngine} {req : OrderRequest} {outcome : SendOutcome}
  {requests : List OrderRequest} {outcomes : List SendOutcome}

theorem sendOrder_returned_iff (h : s.sendOrder kernel req = some (outcome,s')) :
    (outcome.returned = true ↔ outcome.Transmitted) ↔ SocketTakes kernel s req := by
  rcases sendOrder_cases h with ⟨status,hcheck,hstatus,rfl,_⟩ | ⟨_,_,_,taken,hcheck,_,htaken,rfl,_⟩
  · simp [SendOutcome.Transmitted,SocketTakes,hcheck,hstatus]
  · simp [SendOutcome.Transmitted,SocketTakes,hcheck,htaken]

lemma sendOrder_position (h : s.sendOrder kernel req = some (outcome,s')) :
    s'.riskEngine.currentPosition = s.riskEngine.currentPosition +
      if outcome.status = .approved then req.signedShares else 0 := by
  rcases sendOrder_cases h with ⟨status,_,hstatus,rfl,rfl⟩ | ⟨_,_,_,_,hcheck,_,_,rfl,rfl⟩
  · simp [hstatus]
  · obtain ⟨_,hrange,_⟩ := PreTradeRiskEngine.approved_spec hcheck
    rw [if_pos rfl]
    exact PreTradeRiskEngine.updatePosition_exact hrange

theorem run_position (h : run (sendOrder kernel) s requests = some (outcomes,s')) :
    s'.riskEngine.currentPosition = s.riskEngine.currentPosition +
      ((approvedOf requests outcomes).map OrderRequest.signedShares).sum := by
  induction requests generalizing s outcomes with
  | nil =>
    obtain ⟨rfl,rfl⟩ := Prod.mk.inj (Option.some.inj h)
    simp [approvedOf]
  | cons req requests ih =>
    obtain ⟨outcome,s₁,outcomes,hsend,hrun,rfl⟩ := run_cons_eq_some.mp h
    rw [ih hrun,sendOrder_position hsend]
    by_cases hstatus : outcome.status = .approved
    · simp [approvedOf,hstatus,Int.add_assoc]
    · simp [approvedOf,hstatus]

lemma run_returned_iff_approved (h : run (sendOrder kernel) s requests = some (outcomes,s')) :
    ∀ outcome ∈ outcomes, outcome.returned = true ↔ outcome.status = .approved := by
  refine (run_forall_answers_iff (C := fun _ _ => True) ?_ h).mpr fun _ _ _ _ _ _ _ => trivial
  intro s req outcome s' hsend
  rcases sendOrder_cases hsend with ⟨status,_,hstatus,rfl,_⟩ | ⟨_,_,_,_,_,_,_,rfl,_⟩
  · simp [hstatus]
  · simp

/-- When every approved request was transmitted, the two lists are the same. -/
lemma transmittedOf_eq (h : ∀ outcome ∈ outcomes, outcome.status = .approved ↔ outcome.Transmitted) :
    transmittedOf requests outcomes = approvedOf requests outcomes := by
  unfold transmittedOf approvedOf
  congr 1
  apply List.filter_congr
  intro p hp
  exact decide_eq_decide.mpr (h p.2 (List.of_mem_zip hp).2).symm

/-- After a run of `sendOrder` orders count as sent exactly when they were transmitted, if and only
if the socket took every order that the risk engine approved. -/
theorem run_counts_transmitted_iff (maxOrders : ℕ) (config : RiskConfig) (kernel : KernelSend)
    (requests : List OrderRequest) (outcomes : List SendOutcome) (s : StrategyEngine)
    (hrun : run (sendOrder kernel) (init maxOrders config) requests = some (outcomes,s)) :
    CountsTransmitted requests outcomes s ↔
      ∀ pre req post, requests = pre ++ req :: post → ∀ outcomes₁ s₁,
        run (sendOrder kernel) (init maxOrders config) pre = some (outcomes₁,s₁) →
        SocketTakes kernel s₁ req := by
  rw [← run_forall_answers_iff (fun _ _ _ _ => sendOrder_returned_iff) hrun]
  constructor
  · exact CountsTransmitted.returned
  · intro hreturned
    refine ⟨hreturned,?_⟩
    have hsame : transmittedOf requests outcomes = approvedOf requests outcomes := by
      apply transmittedOf_eq
      intro outcome houtcome
      rw [← run_returned_iff_approved hrun outcome houtcome]
      exact hreturned outcome houtcome
    rw [hsame,run_position hrun]
    exact Int.zero_add _

/-- Two approved orders and a rejected one, with a socket that takes everything. -/
theorem run_counts_transmitted_iff_open_socket :
    ∃ result, run (sendOrder .takesAll) (init 2 ⟨100,100⟩) [aaplOrder 66 60 3,aaplOrder 66 60 3,
        aaplOrder 83 30 3] = some result ∧
      (CountsTransmitted [aaplOrder 66 60 3,aaplOrder 66 60 3,aaplOrder 83 30 3] result.1 result.2 ↔
        ∀ pre req post, [aaplOrder 66 60 3,aaplOrder 66 60 3,aaplOrder 83 30 3] = pre ++ req :: post →
          ∀ outcomes₁ s₁, run (sendOrder .takesAll) (init 2 ⟨100,100⟩) pre = some (outcomes₁,s₁) →
          SocketTakes .takesAll s₁ req) ∧
      CountsTransmitted [aaplOrder 66 60 3,aaplOrder 66 60 3,aaplOrder 83 30 3] result.1 result.2 := by
  refine exists_of_isSome (by decide +kernel) fun result hrun => ?_
  have hiff := run_counts_transmitted_iff 2 ⟨100,100⟩ .takesAll _ result.1 result.2 hrun
  refine ⟨hiff,hiff.mpr ?_⟩
  intro pre req post hpre outcomes₁ s₁ _ _
  have hreq : req ∈ [aaplOrder 66 60 3,aaplOrder 66 60 3,aaplOrder 83 30 3] := by
    rw [hpre]
    simp
  refine ⟨?_,KernelSend.takesAll_accepts _ (by decide)⟩
  simp only [List.mem_cons,List.not_mem_nil,or_false] at hreq
  rcases hreq with rfl | rfl | rfl <;> decide

/-- No socket has been set yet: the order is approved and nothing is transmitted, and yet the call
returns true and the position counts the shares. -/
theorem unsent_order_counted :
    ∃ s, run (sendOrder .takesAll) (init 2 ⟨100,100⟩) [aaplOrder 66 60 (-1)] =
        some ([⟨.approved,true,some (wireBytes (aaplOrder 66 60 (-1)) 1000),0⟩],s) ∧
      s.riskEngine.currentPosition = 60 ∧
      ¬ CountsTransmitted [aaplOrder 66 60 (-1)]
        [⟨.approved,true,some (wireBytes (aaplOrder 66 60 (-1)) 1000),0⟩] s := by
  refine run_exists_of_answers rfl fun s hrun => ⟨(run_position hrun).trans rfl,fun h => ?_⟩
  have htransmitted := (h.returned _ (List.mem_singleton_self _)).mp rfl
  exact absurd htransmitted.2 (by decide)

end StrategyEngine
end TickToTrade
