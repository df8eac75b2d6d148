import TickToTrade.Ems.Lifecycle
import TickToTrade.Library.Keyed

/-! The system as a map, over whole runs. As long as fewer distinct ids are sent than the table has
entries every call returns, and what an order answers depends on the calls for that order alone,
whatever the calls for other orders between them. -/
namespace TickToTrade
open Keyed

/-- What is fixed when an order is sent. -/
def EMSOrder.SameTerms (order order' : EMSOrder) : Prop :=
  order'.orderId = order.orderId ∧ order'.price = order.price ∧ order'.originalQuantity = order.originalQuantity

/-- The messages of the exchange about an order. -/
def EmsCall.IsCallback : EmsCall → Prop
  | .accepted _ => True
  | .rejected _ => True
  | .executed _ _ _ => True
  | .canceled _ => True
  | _ => False

lemma EmsCall.sameTerms_change (c : EmsCall) (order : EMSOrder) : order.SameTerms (c.change order) := by
  cases c with
  | accepted id =>
    simp only [change,EMSOrder.accept]
    split <;> exact ⟨rfl,rfl,rfl⟩
  | executed id fillQuantity fillPrice =>
    by_cases hdead : order.state = .canceled ∨ order.state = .rejected
    · rw [change,EMSOrder.execute_of_dead hdead]
      exact ⟨rfl,rfl,rfl⟩
    · rw [change,EMSOrder.execute_of_not_dead hdead]
      exact ⟨rfl,rfl,rfl⟩
  | _ => exact ⟨rfl,rfl,rfl⟩

/-- The map runs the calls of each order on the record of that order. -/
lemma OrderRecords.runTotal_call (m : OrderRecords) (calls : List EmsCall) :
    (runTotal OrderRecords.call m calls).1 =
      (runTotal (keyedNext EmsCall.id EmsCall.apply) (fun k => m.orders.lookup k) calls).1 ∧
    (fun k => (runTotal OrderRecords.call m calls).2.orders.lookup k) =
      (runTotal (keyedNext EmsCall.id EmsCall.apply) (fun k => m.orders.lookup k) calls).2 := by
  induction calls generalizing m with
  | nil => exact ⟨rfl,rfl⟩
  | cons c calls ih =>
    obtain ⟨hanswer,hlookup⟩ := m.call_apply c
    have hnext : (fun k => (m.call c).2.orders.lookup k) =
        (keyedNext EmsCall.id EmsCall.apply (fun k => m.orders.lookup k) c).2 := by
      funext k
      rw [hlookup]
      exact (Function.update_apply (fun k => m.orders.lookup k) c.id _ k).symm
    obtain ⟨hanswers,hrecords⟩ := ih (m.call c).2
    rw [hnext] at hanswers hrecords
    rw [runTotal_cons,runTotal_cons,hanswers,hanswer]
    exact ⟨rfl,hrecords⟩

/-- What one order answers and where it ends is the run of its own calls. -/
theorem OrderRecords.runTotal_callsFor (calls : List EmsCall) (k : UInt64) :
    answersFor EmsCall.id k calls (runTotal OrderRecords.call ⟨∅⟩ calls).1 =
      (runTotal EmsCall.apply none (callsFor EmsCall.id k calls)).1 ∧
    (runTotal OrderRecords.call ⟨∅⟩ calls).2.orders.lookup k =
      (runTotal EmsCall.apply none (callsFor EmsCall.id k calls)).2 := by
  obtain ⟨hanswers,hrecords⟩ := OrderRecords.runTotal_call ⟨∅⟩ calls
  obtain ⟨hfor,hstate⟩ := runTotal_keyedNext EmsCall.id EmsCall.apply (fun _ => none) calls k
  simp only [Finmap.lookup_empty] at hanswers hrecords
  exact ⟨by rw [hanswers,hfor],by rw [← hstate,← hrecords]⟩

namespace ExecutionManagementSystem

variable {e e' : ExecutionManagementSystem} {m : OrderRecords} {calls : List EmsCall} {answers : List EmsAnswer}

lemma mem_sentIds_iff {id : UInt64} : id ∈ sentIds calls ↔ ∃ price quantity, EmsCall.sent id price quantity ∈ calls := by
  induction calls with
  | nil => simp [sentIds]
  | cons c calls ih =>
    rw [sentIds_cons,Finset.mem_union,ih]
    cases c with
    | sent k price quantity =>
      simp only [sentIds,Finset.mem_insert,Finset.notMem_empty,or_false,List.mem_cons,EmsCall.sent.injEq]
      constructor
      · rintro (rfl | ⟨p,q,hmem⟩)
        · exact ⟨price,quantity,.inl ⟨rfl,rfl,rfl⟩⟩
        · exact ⟨p,q,.inr hmem⟩
      · rintro ⟨p,q,⟨rfl,_⟩ | hmem⟩
        · exact .inl rfl
        · exact .inr ⟨p,q,hmem⟩
    | _ => simp [sentIds]

lemma sentIds_congr {calls' : List EmsCall} (h : ∀ k, callsFor EmsCall.id k calls' = callsFor EmsCall.id k calls) :
    sentIds calls' = sentIds calls := by
  ext k
  have hmem : ∀ cs : List EmsCall, k ∈ sentIds cs ↔
      ∃ price quantity, EmsCall.sent k price quantity ∈ callsFor EmsCall.id k cs := by
    intro cs
    simp [mem_sentIds_iff,callsFor,EmsCall.id]
  rw [hmem,hmem,h k]

lemma sentIds_append (calls calls' : List EmsCall) : sentIds (calls ++ calls') = sentIds calls ∪ sentIds calls' := by
  ext k
  simp only [mem_sentIds_iff,Finset.mem_union,List.mem_append]
  constructor
  · rintro ⟨p,q,hmem | hmem⟩
    · exact .inl ⟨p,q,hmem⟩
    · exact .inr ⟨p,q,hmem⟩
  · rintro (⟨p,q,hmem⟩ | ⟨p,q,hmem⟩)
    · exact ⟨p,q,.inl hmem⟩
    · exact ⟨p,q,.inr hmem⟩

/-- What one call may do, seen from outside; `pre` are the calls before it. -/
structure CallContract (pre : List EmsCall) (c : EmsCall) (e : ExecutionManagementSystem) (r : EmsAnswer)
    (e' : ExecutionManagementSystem) : Prop where
  sent : ∀ id price quantity, c = .sent id price quantity → (r = .done false ↔ id ∈ sentIds pre) ∧
    (r = .done true → e'.getOrder id = some (some ⟨id,price,quantity,0,.pendingNew⟩))
  unknown : c.IsCallback → c.id ∉ sentIds pre → r = .done false ∧ e' = e
  others : ∀ k, k ≠ c.id → e'.getOrder k = e.getOrder k ∧ e'.getOrderState k = e.getOrderState k

lemma getOrderState_eq (e : ExecutionManagementSystem) (id : UInt64) :
    e.getOrderState id = (e.getOrder id).map fun found => found.elim .none EMSOrder.state := by
  unfold getOrderState
  cases e.getOrder id with
  | none => rfl
  | some found => cases found <;> rfl

lemma Refines.lookup_eq {m' : OrderRecords} (h : Refines e m) (h' : Refines e m') (k : UInt64) :
    m.orders.lookup k = m'.orders.lookup k := by
  ext order
  rw [← h.getOrder_eq_iff,h'.getOrder_eq_iff]

/-- A message about an unknown order finds a free entry and stops there. -/
lemma Refines.callback_unknown (h : Refines e m) {c : EmsCall} (hcallback : c.IsCallback)
    (habsent : c.id ∉ m.orders) (hroom : m.orders.keys.card < e.mapCapacity) {r : EmsAnswer}
    (hcall : e.call c = some (r,e')) : r = .done false ∧ e' = e := by
  have hrefused : ∀ change, (e.callback c.id change).map (Prod.map EmsAnswer.done fun e => e) =
      some (.done false,e) := by
    intro change
    simp [ExecutionManagementSystem.callback,h.mapFind_absent habsent hroom]
  have hanswer : e.call c = some (.done false,e) := by
    cases c with
    | accepted id => exact hrefused EMSOrder.accept
    | rejected id => exact hrefused EMSOrder.reject
    | executed id fillQuantity fillPrice => exact hrefused (EMSOrder.execute fillQuantity)
    | canceled id => exact hrefused EMSOrder.cancel
    | _ => contradiction
  obtain ⟨rfl,rfl⟩ := Prod.mk.inj (Option.some.inj (hanswer.symm.trans hcall))
  exact ⟨rfl,rfl⟩

section Reached
variable {maxOrders : ℕ} (hmax : 1 ≤ maxOrders)
include hmax

lemma reached_of_few {pre : List EmsCall} (hfew : (sentIds pre).card < 2 * maxOrders)
    (hrun : run ExecutionManagementSystem.call (init maxOrders) pre = some (answers,e)) :
    ∃ m, Refines e m ∧ m.orders.keys = sentIds pre ∧ m.orders.keys.card < e.mapCapacity ∧
      runTotal OrderRecords.call ⟨∅⟩ pre = (answers,m) := by
  obtain ⟨m,h,hcap,hkeys,htotal⟩ := refines_of_run (refines_init hmax) hrun
  have hkeys' : m.orders.keys = sentIds pre := by simpa using hkeys
  have hcap' : e.mapCapacity = maxOrders * 2 := hcap
  refine ⟨m,h,hkeys',?_,htotal⟩
  rw [hkeys',hcap']
  omega

lemma run_isSome_of_few (hfew : (sentIds calls).card < 2 * maxOrders) :
    (run ExecutionManagementSystem.call (init maxOrders) calls).isSome := by
  rw [run_isSome_iff]
  rintro pre c post rfl before u hpre
  rw [sentIds_append] at hfew
  have hsub := Finset.card_le_card (Finset.subset_union_left : sentIds pre ⊆ sentIds pre ∪ sentIds (c :: post))
  obtain ⟨m,h,_,hroom,_⟩ := reached_of_few hmax (by omega) hpre
  obtain ⟨u',hcall,_⟩ := h.call c (.inr hroom)
  rw [hcall]
  rfl

lemma callContract_of_few {pre : List EmsCall} {c : EmsCall} {r : EmsAnswer}
    (hfew : (sentIds (pre ++ [c])).card < 2 * maxOrders)
    (hrun : run ExecutionManagementSystem.call (init maxOrders) pre = some (answers,e))
    (hcall : e.call c = some (r,e')) : CallContract pre c e r e' := by
  have hsub := Finset.card_le_card (Finset.subset_union_left : sentIds pre ⊆ sentIds pre ∪ sentIds [c])
  rw [← sentIds_append] at hsub
  obtain ⟨m,h,hkeys,hroom,_⟩ := reached_of_few hmax (by omega) hrun
  obtain ⟨m',h',_,hroom',_⟩ := reached_of_few hmax hfew (run_concat hrun hcall)
  obtain ⟨rfl,m₂,h₂,hrecords⟩ := h.call_records hcall
  have hlookup : ∀ k, e'.getOrder k = some (if k = c.id then (c.apply (m.orders.lookup c.id)).2
      else m.orders.lookup k) := by
    intro k
    rw [h'.getOrder (.inr hroom'),h'.lookup_eq h₂,hrecords]
  refine ⟨?_,fun hcallback hunknown => ?_,fun k hk => ?_⟩
  · rintro id price quantity rfl
    rw [hlookup,EmsCall.id,if_pos rfl,← hkeys,Finmap.mem_keys,← Finmap.lookup_isSome]
    cases m.orders.lookup id <;> simp [EmsCall.apply]
  · have habsent : c.id ∉ m.orders := fun hmem => hunknown (hkeys ▸ Finmap.mem_keys.mpr hmem)
    exact h.callback_unknown hcallback habsent hroom hcall
  · have hsame : e'.getOrder k = e.getOrder k := by rw [hlookup,if_neg hk,h.getOrder (.inr hroom)]
    exact ⟨hsame,by rw [getOrderState_eq,getOrderState_eq,hsame]⟩

lemma run_congr_of_few {calls' : List EmsCall} {answers' : List EmsAnswer}
    (hfew : (sentIds calls).card < 2 * maxOrders)
    (horders : ∀ k, callsFor EmsCall.id k calls' = callsFor EmsCall.id k calls)
    (hrun : run ExecutionManagementSystem.call (init maxOrders) calls = some (answers,e))
    (hrun' : run ExecutionManagementSystem.call (init maxOrders) calls' = some (answers',e')) (k : UInt64) :
    answersFor EmsCall.id k calls' answers' = answersFor EmsCall.id k calls answers ∧
      e'.getOrder k = e.getOrder k := by
  obtain ⟨m,h,_,hroom,htotal⟩ := reached_of_few hmax hfew hrun
  obtain ⟨m',h',_,hroom',htotal'⟩ := reached_of_few hmax (sentIds_congr horders ▸ hfew) hrun'
  obtain ⟨hanswers,hrecord⟩ := OrderRecords.runTotal_callsFor calls k
  obtain ⟨hanswers',hrecord'⟩ := OrderRecords.runTotal_callsFor calls' k
  rw [htotal] at hanswers hrecord
  rw [htotal',horders] at hanswers' hrecord'
  refine ⟨hanswers'.trans hanswers.symm,?_⟩
  rw [h.getOrder (.inr hroom),h'.getOrder (.inr hroom')]
  exact congrArg some (hrecord'.trans hrecord.symm)

lemma sameTerms_of_run {between : List EmsAnswer}
    (hrun : run ExecutionManagementSystem.call (init maxOrders) calls = some (answers,e)) {mid : List EmsCall}
    (hmid : run ExecutionManagementSystem.call e mid = some (between,e')) {id : UInt64} {order : EMSOrder}
    (horder : e.getOrder id = some (some order)) :
    ∃ order', e'.getOrder id = some (some order') ∧ order.SameTerms order' := by
  obtain ⟨m,h,_⟩ := refines_of_run (refines_init hmax) hrun
  have hkept : ∃ m', Refines e' m' ∧ ∀ k, k = id →
      ∃ order', m'.orders.lookup k = some order' ∧ order.SameTerms order' := by
    refine run_record_induction (I := fun _ _ k found => k = id →
      ∃ order', found = some order' ∧ order.SameTerms order') h ?_ ?_ hmid
    · rintro k rfl
      exact ⟨order,h.getOrder_eq_iff.mp horder,rfl,rfl,rfl⟩
    · intro pre c post before u m₁ _ _ _ hI k hk
      obtain ⟨order₁,hlookup,hid,hprice,hquantity⟩ := hI k hk
      by_cases hc : k = c.id
      · obtain ⟨hid',hprice',hquantity'⟩ := c.sameTerms_change order₁
        rw [hc] at hlookup
        exact ⟨c.change order₁,by rw [if_pos hc,hlookup,EmsCall.apply_some],hid'.trans hid,
          hprice'.trans hprice,hquantity'.trans hquantity⟩
      · exact ⟨order₁,by rw [if_neg hc,hlookup],hid,hprice,hquantity⟩
  obtain ⟨m',h',hI⟩ := hkept
  obtain ⟨order',hlookup,hterms⟩ := hI id rfl
  exact ⟨order',h'.getOrder_eq_iff.mpr hlookup,hterms⟩

end Reached

/-- A run that sends fewer distinct ids than the table has entries is a run of the map, order by
order: all calls return, and the calls for other orders between those of one order do not matter. -/
theorem run_refines_map (maxOrders : ℕ) (hmax : 1 ≤ maxOrders) (calls : List EmsCall)
    (hfew : (sentIds calls).card < 2 * maxOrders) :
    ∃ answers e, run ExecutionManagementSystem.call (init maxOrders) calls = some (answers,e) ∧
      answers = (runTotal OrderRecords.call ⟨∅⟩ calls).1 ∧
      (∀ id, e.getOrder id = some ((runTotal OrderRecords.call ⟨∅⟩ calls).2.orders.lookup id) ∧
        e.getOrderState id = some (((runTotal OrderRecords.call ⟨∅⟩ calls).2.orders.lookup id).elim
          .none EMSOrder.state)) ∧
      (∀ pre c post, calls = pre ++ c :: post → ∃ before u r u',
        run ExecutionManagementSystem.call (init maxOrders) pre = some (before,u) ∧ u.call c = some (r,u') ∧
        CallContract pre c u r u') ∧
      (∀ pre mid post, calls = pre ++ mid ++ post →
        ∀ before u, run ExecutionManagementSystem.call (init maxOrders) pre = some (before,u) →
        ∀ between u', run ExecutionManagementSystem.call u mid = some (between,u') →
        ∀ id order, u.getOrder id = some (some order) →
          ∃ order', u'.getOrder id = some (some order') ∧ order.SameTerms order') ∧
      ∀ calls', (∀ k, callsFor EmsCall.id k calls' = callsFor EmsCall.id k calls) →
        ∃ answers' e', run ExecutionManagementSystem.call (init maxOrders) calls' = some (answers',e') ∧
        ∀ k, answersFor EmsCall.id k calls' answers' = answersFor EmsCall.id k calls answers ∧
          e'.getOrder k = e.getOrder k ∧ e'.getOrderState k = e.getOrderState k := by
  obtain ⟨⟨answers,e⟩,hrun⟩ := Option.isSome_iff_exists.mp (run_isSome_of_few hmax hfew)
  obtain ⟨m,h,_,hroom,htotal⟩ := reached_of_few hmax hfew hrun
  refine ⟨answers,e,hrun,by rw [htotal],fun id => ?_,?_,?_,?_⟩
  · rw [getOrderState_eq,h.getOrder (.inr hroom),htotal]
    exact ⟨rfl,rfl⟩
  · rintro pre c post rfl
    obtain ⟨u,before,rest,hpre,hpost,_⟩ := run_append_eq_some.mp hrun
    obtain ⟨r,u',_,hcall,_⟩ := run_cons_eq_some.mp hpost
    refine ⟨before,u,r,u',hpre,hcall,callContract_of_few hmax ?_ hpre hcall⟩
    have hsub := Finset.card_le_card
      (Finset.subset_union_left : sentIds (pre ++ [c]) ⊆ sentIds (pre ++ [c]) ∪ sentIds post)
    rw [← sentIds_append,List.append_assoc,List.singleton_append] at hsub
    omega
  · intro pre mid post _ before u hpre between u' hmid id order horder
    exact sameTerms_of_run hmax hpre hmid horder
  · intro calls' horders
    have hfew' : (sentIds calls').card < 2 * maxOrders := sentIds_congr horders ▸ hfew
    obtain ⟨⟨answers',e'⟩,hrun'⟩ := Option.isSome_iff_exists.mp (run_isSome_of_few hmax hfew')
    refine ⟨answers',e',hrun',fun k => ?_⟩
    obtain ⟨hanswers,hsame⟩ := run_congr_of_few hmax hfew horders hrun hrun' k
    exact ⟨hanswers,hsame,by rw [getOrderState_eq,getOrderState_eq,hsame]⟩

/-- Ids 0, 2 and 4 collide in a table of four entries. -/
theorem run_refines_map_colliding :
    (sentIds [.sent 0 50 10,.sent 2 51 20,.accepted 0,.executed 4 1 1,.sent 4 52 30,.sent 0 1 1]).card < 2 * 2 ∧
    ∃ answers e, run ExecutionManagementSystem.call (init 2)
      [.sent 0 50 10,.sent 2 51 20,.accepted 0,.executed 4 1 1,.sent 4 52 30,.sent 0 1 1] = some (answers,e) ∧
      e.getOrder 4 = some (some ⟨4,52,30,0,.pendingNew⟩) := by
  have hfew : (sentIds [.sent 0 50 10,.sent 2 51 20,.accepted 0,.executed 4 1 1,.sent 4 52 30,.sent 0 1 1]).card <
      2 * 2 := by decide
  obtain ⟨answers,e,hrun,_,hget,_⟩ := run_refines_map 2 (by decide) _ hfew
  refine ⟨hfew,answers,e,hrun,?_⟩
  rw [(hget 4).1]
  rfl

end ExecutionManagementSystem
end TickToTrade
