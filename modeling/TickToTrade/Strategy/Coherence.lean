import TickToTrade.Strategy.Engine
import TickToTrade.Library.Run
import Mathlib.Algebra.BigOperators.Group.List.Basic

/-! Risk counter, EMS, id counter and wire over whole runs of `sendOrder`. The approved requests
in their order determine all four; the invariant says how. -/
namespace TickToTrade.StrategyEngine
open Bytes Ouch

/-- The requests that the risk engine approves when it is asked for them one after another. -/
def approvedRequests : PreTradeRiskEngine → List OrderRequest → List OrderRequest
  | _, [] => []
  | engine, req :: reqs =>
    if req.check engine = some .approved then
      req :: approvedRequests (engine.updatePosition req.signedShares) reqs
    else approvedRequests engine reqs

/-- The id and the record of the approved request number `i`. -/
def nthOrderId (i : ℕ) : UInt64 := 1000 + UInt64.ofNat i

def nthRecord (i : ℕ) (req : OrderRequest) : EMSOrder :=
  ⟨nthOrderId i,req.price,req.shares,0,.pendingNew⟩

lemma nthOrderId_injective {i j : ℕ} (hi : i < 2 ^ 64) (hj : j < 2 ^ 64) (h : nthOrderId i = nthOrderId j) :
    i = j := by
  have hof : UInt64.ofNat i = UInt64.ofNat j := (UInt64.add_right_inj 1000).mp h
  have hval := congrArg UInt64.toNat hof
  rwa [UInt64.toNat_ofNat_of_lt' hi,UInt64.toNat_ofNat_of_lt' hj] at hval

lemma nthOrderId_succ (n : ℕ) : nthOrderId n + 1 = nthOrderId (n + 1) := by
  unfold nthOrderId
  rw [UInt64.add_assoc]
  congr 1
  exact (UInt64.ofNat_add n 1).symm

/-- The map holds one record for each approved request, under the ids from 1000 on. -/
structure Records (approved : List OrderRequest) (m : OrderRecords) : Prop where
  card : m.orders.keys.card = approved.length
  lookup_iff : ∀ id o, m.orders.lookup id = some o ↔
    ∃ i req, approved[i]? = some req ∧ id = nthOrderId i ∧ o = nthRecord i req

section Records
variable {approved : List OrderRequest} {m : OrderRecords} (h : Records approved m)
include h

/-- The next id is new as long as the counter has not gone round. -/
lemma Records.next_notMem (hlt : approved.length < 2 ^ 64) : nthOrderId approved.length ∉ m.orders := by
  rw [← Finmap.lookup_eq_none,Option.eq_none_iff_forall_ne_some]
  intro o ho
  obtain ⟨i,r,hi,hid,_⟩ := (h.lookup_iff _ o).mp ho
  have hindex := (List.getElem?_eq_some_iff.mp hi).1
  have := nthOrderId_injective hlt (by omega) hid
  omega

theorem Records.append (hlt : approved.length < 2 ^ 64) (req : OrderRequest) :
    Records (approved ++ [req])
      ⟨m.orders.insert (nthOrderId approved.length) (nthRecord approved.length req)⟩ where
  card := by
    have hnew : nthOrderId approved.length ∉ m.orders.keys := by
      rw [Finmap.mem_keys]
      exact h.next_notMem hlt
    rw [m.keys_insert,Finset.card_insert_of_notMem hnew,h.card,List.length_append,List.length_singleton]
  lookup_iff id o := by
    by_cases hid : id = nthOrderId approved.length
    · subst hid
      rw [Finmap.lookup_insert]
      constructor
      · intro ho
        exact ⟨approved.length,req,by simp,rfl,(Option.some.inj ho).symm⟩
      · rintro ⟨i,r,hi,hid,rfl⟩
        have hindex := (List.getElem?_eq_some_iff.mp hi).1
        rw [List.length_append,List.length_singleton] at hindex
        obtain rfl := nthOrderId_injective hlt (by omega) hid
        obtain rfl : req = r := by simpa using hi
        rfl
    · rw [Finmap.lookup_insert_of_ne _ hid,h.lookup_iff]
      constructor
      · rintro ⟨i,r,hi,hid,ho⟩
        have hindex := (List.getElem?_eq_some_iff.mp hi).1
        exact ⟨i,r,by rwa [List.getElem?_append_left hindex],hid,ho⟩
      · rintro ⟨i,r,hi,rfl,ho⟩
        have hindex := (List.getElem?_eq_some_iff.mp hi).1
        rw [List.length_append,List.length_singleton] at hindex
        have hne : i ≠ approved.length := fun heq => hid (by rw [heq])
        rw [List.getElem?_append_left (by omega)] at hi
        exact ⟨i,r,hi,rfl,ho⟩

end Records

/-- The state after the given approved requests. -/
structure Tracks (maxOrders : ℕ) (config : RiskConfig) (approved : List OrderRequest) (s : StrategyEngine) :
    Prop where
  capacity : s.ems.mapCapacity = 2 * maxOrders
  counter : s.orderIdCounter = nthOrderId approved.length
  config_eq : s.riskEngine.config = config
  position : s.riskEngine.currentPosition = (approved.map OrderRequest.signedShares).sum
  limit : |s.riskEngine.currentPosition| ≤ config.maxPosition
  records : ∃ m, s.ems.Refines m ∧ Records approved m

lemma tracks_init {maxOrders : ℕ} (hmax : 1 ≤ maxOrders) {config : RiskConfig} (hpos : 0 ≤ config.maxPosition) :
    Tracks maxOrders config [] (init maxOrders config) where
  capacity := Nat.mul_comm _ _
  counter := rfl
  config_eq := rfl
  position := rfl
  limit := hpos
  records := ⟨⟨∅⟩,ExecutionManagementSystem.refines_init hmax,by simp,by simp⟩

variable {maxOrders : ℕ} {config : RiskConfig} {approved : List OrderRequest}
  {s : StrategyEngine} {req : OrderRequest}

/-- An approved request with room in the EMS goes through and is tracked as the next one. -/
theorem Tracks.approve (h : Tracks maxOrders config approved s) (hsize : 2 * maxOrders ≤ 2 ^ 64)
    (hroom : approved.length < 2 * maxOrders) (hcheck : req.check s.riskEngine = some .approved)
    (kernel : KernelSend) :
    ∃ taken s', s.sendOrder kernel req =
        some (⟨.approved,true,some (wireBytes req s.orderIdCounter),taken⟩,s') ∧
      s'.riskEngine = s.riskEngine.updatePosition req.signedShares ∧
      Tracks maxOrders config (approved ++ [req]) s' := by
  obtain ⟨m,hrefines,hrecords⟩ := h.records
  have hlt : approved.length < 2 ^ 64 := by omega
  have habsent := hrecords.next_notMem hlt
  rw [← h.counter] at habsent
  have hcardroom : m.orders.keys.card < s.ems.mapCapacity := by
    rw [hrecords.card,h.capacity]
    exact hroom
  obtain ⟨ems,hsent,hcap,hrefines'⟩ := hrefines.onOrderSent (.inr hcardroom) req.price req.shares
  obtain ⟨gateway,taken,hsend,_⟩ := sendOrder_of_approved kernel hcheck hsent
  obtain ⟨_,hrange,hlimit⟩ := PreTradeRiskEngine.approved_spec hcheck
  have hexact : (s.riskEngine.updatePosition req.signedShares).currentPosition =
      s.riskEngine.currentPosition + req.signedShares := PreTradeRiskEngine.updatePosition_exact hrange
  simp only [OrderRecords.sent,if_neg habsent] at hrefines'
  refine ⟨taken,_,hsend,rfl,hcap.trans h.capacity,?_,h.config_eq,?_,?_,_,hrefines',?_⟩
  · rw [h.counter,nthOrderId_succ,List.length_append,List.length_singleton]
  · rw [hexact,h.position,List.map_append,List.sum_append]
    simp
  · rw [hexact,← h.config_eq]
    exact hlimit
  · rw [h.counter]
    exact hrecords.append hlt req

/-- The requests of a run that its outcomes show as approved. -/
def approvedOf (requests : List OrderRequest) (outcomes : List SendOutcome) : List OrderRequest :=
  ((requests.zip outcomes).filter fun p => p.2.status = .approved).map Prod.fst

/-- A message of 49 bytes that the exchange reads as the request. -/
def Decodes (bytes : List UInt8) (req : OrderRequest) : Prop :=
  bytes.length = 49 ∧ ∀ outMsg, ∃ msg, parseEnterOrder (ofBytes bytes) bytes.length outMsg = (true,msg) ∧
    msg.buySellIndicator = req.side ∧ msg.shares = req.shares ∧ msg.price = req.price

lemma decodes_wireBytes (req : OrderRequest) (id : UInt64) : Decodes (wireBytes req id) req :=
  ⟨length_slice _ _ _,fun outMsg => ⟨_,parse_wireBytes req id outMsg,rfl,rfl,rfl⟩⟩

/-- From a tracked state every further request is answered, as long as the EMS has room for the
approved ones. The induction is on the requests, over all states and approvals so far. -/
theorem Tracks.run_requests (kernel : KernelSend) (hsize : 2 * maxOrders ≤ 2 ^ 64)
    (hposition : config.maxPosition < 2 ^ 63 - 2 ^ 32) (requests : List OrderRequest)
    (h : Tracks maxOrders config approved s)
    (hroom : (approved ++ approvedRequests s.riskEngine requests).length < 2 * maxOrders) :
    ∃ outcomes s', run (sendOrder kernel) s requests = some (outcomes,s') ∧
      Tracks maxOrders config (approved ++ approvedRequests s.riskEngine requests) s' ∧
      approvedOf requests outcomes = approvedRequests s.riskEngine requests ∧
      List.Forall₂ Decodes (outcomes.filterMap SendOutcome.handed)
        (approvedRequests s.riskEngine requests) := by
  induction requests generalizing approved s with
  | nil => exact ⟨[],s,rfl,by simpa [approvedRequests] using h,rfl,.nil⟩
  | cons req requests ih =>
    have hchecks : (req.check s.riskEngine).isSome :=
      PreTradeRiskEngine.checkOrder_isSome (lt_of_le_of_lt h.limit hposition)
    obtain ⟨status,hstatus⟩ := Option.isSome_iff_exists.mp hchecks
    by_cases happroved : status = .approved
    · subst happroved
      have hlist : approvedRequests s.riskEngine (req :: requests) =
          req :: approvedRequests (s.riskEngine.updatePosition req.signedShares) requests := by
        rw [approvedRequests,if_pos hstatus]
      rw [hlist] at hroom ⊢
      have hone : approved.length < 2 * maxOrders := by
        simp only [List.length_append,List.length_cons] at hroom
        omega
      obtain ⟨taken,s₁,hsend,hrisk,h₁⟩ := h.approve hsize hone hstatus kernel
      rw [← hrisk] at hroom ⊢
      rw [List.append_cons] at hroom ⊢
      obtain ⟨outcomes,s',hrun,h',hof,hwire⟩ := ih h₁ hroom
      refine ⟨_,s',run_cons_eq_some.mpr ⟨_,s₁,outcomes,hsend,hrun,rfl⟩,h',?_,?_⟩
      · simpa [approvedOf] using hof
      · exact .cons (decodes_wireBytes req _) hwire
    · have hlist : approvedRequests s.riskEngine (req :: requests) =
          approvedRequests s.riskEngine requests := by
        rw [approvedRequests,if_neg]
        rw [hstatus]
        exact fun h => happroved (Option.some.inj h)
      rw [hlist] at hroom ⊢
      obtain ⟨outcomes,s',hrun,h',hof,hwire⟩ := ih h hroom
      refine ⟨_,s',run_cons_eq_some.mpr ⟨_,s,outcomes,sendOrder_of_rejected hstatus happroved,hrun,rfl⟩,
        h',?_,?_⟩
      · simpa [approvedOf,happroved] using hof
      · exact hwire

/-- Risk, EMS and wire agree after a run of `sendOrder`. -/
structure Coherent (maxOrders : ℕ) (config : RiskConfig) (kernel : KernelSend)
    (requests : List OrderRequest) (outcomes : List SendOutcome) (s : StrategyEngine) : Prop where
  held : ∀ i req, (approvedOf requests outcomes)[i]? = some req →
    s.ems.getOrder (nthOrderId i) = some (some ⟨nthOrderId i,req.price,req.shares,0,.pendingNew⟩)
  held_only : ∀ id, (∀ i < (approvedOf requests outcomes).length, id ≠ nthOrderId i) →
    s.ems.getOrder id = some none
  position : s.riskEngine.currentPosition = ((approvedOf requests outcomes).map fun req =>
    if req.side = 'B'.toUInt8 then (req.shares.toNat : ℤ) else -(req.shares.toNat : ℤ)).sum
  limit : ∀ pre post, requests = pre ++ post → ∀ outcomes₁ s₁,
    run (sendOrder kernel) (init maxOrders config) pre = some (outcomes₁,s₁) →
    |s₁.riskEngine.currentPosition| ≤ config.maxPosition
  size : ∀ req ∈ approvedOf requests outcomes, req.shares ≤ config.maxOrderSize
  wire : List.Forall₂ Decodes (outcomes.filterMap SendOutcome.handed) (approvedOf requests outcomes)
  rejected : ∀ pre req post, requests = pre ++ req :: post → ∀ outcomes₁ s₁ outcome s₂,
    run (sendOrder kernel) (init maxOrders config) pre = some (outcomes₁,s₁) →
    s₁.sendOrder kernel req = some (outcome,s₂) → outcome.status ≠ .approved →
    outcome.returned = false ∧ outcome.handed = none ∧ s₂ = s₁

lemma Tracks.getOrder (h : Tracks maxOrders config approved s) (hroom : approved.length < 2 * maxOrders)
    (id : UInt64) : ∃ m, Records approved m ∧ s.ems.getOrder id = some (m.orders.lookup id) := by
  obtain ⟨m,hrefines,hrecords⟩ := h.records
  refine ⟨m,hrecords,hrefines.getOrder (.inr ?_)⟩
  rw [hrecords.card,h.capacity]
  exact hroom

lemma sendOrder_limit {kernel : KernelSend} {s' : StrategyEngine} {outcome : SendOutcome}
    (hs : s.riskEngine.config = config ∧ |s.riskEngine.currentPosition| ≤ config.maxPosition)
    (hsend : s.sendOrder kernel req = some (outcome,s')) :
    s'.riskEngine.config = config ∧ |s'.riskEngine.currentPosition| ≤ config.maxPosition := by
  rcases sendOrder_cases hsend with ⟨_,_,_,_,rfl⟩ | ⟨_,_,_,_,hcheck,_,_,_,rfl⟩
  · exact hs
  · obtain ⟨_,hrange,hlimit⟩ := PreTradeRiskEngine.approved_spec hcheck
    refine ⟨hs.1,?_⟩
    change |(s.riskEngine.updatePosition _).currentPosition| ≤ _
    rw [OrderRequest.signedShares,PreTradeRiskEngine.updatePosition_exact hrange,← hs.1]
    exact hlimit

lemma approvedRequests_size (engine : PreTradeRiskEngine) (requests : List OrderRequest) :
    ∀ req ∈ approvedRequests engine requests, req.shares ≤ engine.config.maxOrderSize := by
  induction requests generalizing engine with
  | nil => simp [approvedRequests]
  | cons req requests ih =>
    rw [approvedRequests]
    split
    · rename_i hcheck
      intro r hr
      rcases List.mem_cons.mp hr with rfl | hr
      · exact (PreTradeRiskEngine.approved_spec hcheck).1
      · exact ih (engine.updatePosition req.signedShares) r hr
    · exact ih engine

/-- Every sequence of requests of which fewer are approved than the EMS has entries is answered,
and leaves risk, EMS and wire coherent. -/
theorem run_coherent (maxOrders : ℕ) (hmax : 1 ≤ maxOrders) (hsize : 2 * maxOrders ≤ 2 ^ 64)
    (config : RiskConfig) (hpos : 0 ≤ config.maxPosition) (hposition : config.maxPosition < 2 ^ 63 - 2 ^ 32)
    (kernel : KernelSend) (requests : List OrderRequest)
    (hroom : (approvedRequests (PreTradeRiskEngine.init config) requests).length < 2 * maxOrders) :
    ∃ outcomes s, run (sendOrder kernel) (init maxOrders config) requests = some (outcomes,s) ∧
      approvedOf requests outcomes = approvedRequests (PreTradeRiskEngine.init config) requests ∧
      Coherent maxOrders config kernel requests outcomes s := by
  obtain ⟨outcomes,s,hrun,h,hof,hwire⟩ :=
    (tracks_init hmax hpos).run_requests kernel hsize hposition requests (by simpa using hroom)
  simp only [List.nil_append,init_riskEngine] at h hof hwire
  refine ⟨outcomes,s,hrun,hof,?_⟩
  rw [← hof] at h hwire hroom
  constructor
  · intro i req hi
    obtain ⟨m,hrecords,hget⟩ := h.getOrder hroom (nthOrderId i)
    rw [hget,(hrecords.lookup_iff _ _).mpr ⟨i,req,hi,rfl,rfl⟩]
    rfl
  · intro id hid
    obtain ⟨m,hrecords,hget⟩ := h.getOrder hroom id
    rw [hget,Option.some.injEq,Option.eq_none_iff_forall_ne_some]
    intro o ho
    obtain ⟨i,req,hi,hid',_⟩ := (hrecords.lookup_iff id o).mp ho
    exact hid i (List.getElem?_eq_some_iff.mp hi).1 hid'
  · exact h.position
  · intro pre post _ outcomes₁ s₁ hpre
    have hstart : (init maxOrders config).riskEngine.config = config ∧
        |(init maxOrders config).riskEngine.currentPosition| ≤ config.maxPosition := ⟨rfl,hpos⟩
    exact (run_invariant (I := fun s => s.riskEngine.config = config ∧
      |s.riskEngine.currentPosition| ≤ config.maxPosition)
      (fun s req outcome s' hs hsend => sendOrder_limit hs hsend) hstart hpre).2
  · rw [hof]
    exact approvedRequests_size (PreTradeRiskEngine.init config) requests
  · exact hwire
  · intro pre req post _ outcomes₁ s₁ outcome s₂ _ hsend hstatus
    rcases sendOrder_cases hsend with ⟨_,_,_,rfl,rfl⟩ | ⟨_,_,_,_,_,_,_,rfl,_⟩
    · exact ⟨rfl,rfl,rfl⟩
    · exact absurd rfl hstatus

/-- An order in `AAPL` that passes the price test. -/
def aaplOrder (side : UInt8) (shares : UInt32) (fd : ℤ) : OrderRequest where
  side := side
  shares := shares
  price := 15000
  symbol := some ⟨['A'.toUInt8,'A'.toUInt8,'P'.toUInt8,'L'.toUInt8],by decide⟩
  referencePrice := 15000
  deviates := false
  ouchBuffer := fun _ => 0
  fd := fd

/-- Two approved orders on both sides, one order over the position limit and one over the size
limit between them. -/
theorem run_coherent_mixed :
    approvedRequests (PreTradeRiskEngine.init ⟨100,100⟩) [aaplOrder 66 60 3,aaplOrder 66 60 3,
      aaplOrder 83 200 3,aaplOrder 83 30 3] = [aaplOrder 66 60 3,aaplOrder 83 30 3] ∧
    ∃ outcomes s, run (sendOrder .takesAll) (init 2 ⟨100,100⟩) [aaplOrder 66 60 3,aaplOrder 66 60 3,
        aaplOrder 83 200 3,aaplOrder 83 30 3] = some (outcomes,s) ∧
      approvedOf [aaplOrder 66 60 3,aaplOrder 66 60 3,aaplOrder 83 200 3,aaplOrder 83 30 3] outcomes =
        approvedRequests (PreTradeRiskEngine.init ⟨100,100⟩) [aaplOrder 66 60 3,aaplOrder 66 60 3,
          aaplOrder 83 200 3,aaplOrder 83 30 3] ∧
      Coherent 2 ⟨100,100⟩ .takesAll [aaplOrder 66 60 3,aaplOrder 66 60 3,aaplOrder 83 200 3,
        aaplOrder 83 30 3] outcomes s :=
  ⟨rfl,run_coherent 2 (by decide) (by decide) ⟨100,100⟩ (by decide) (by decide) .takesAll _ (by decide +kernel)⟩

end TickToTrade.StrategyEngine
