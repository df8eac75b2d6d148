import TickToTrade.Ems.Lifecycle

/-! What the fills of an order add up to. The executed quantity is a 32-bit sum without a bound, so
it counts the fills exactly as long as no fill takes the order past its original quantity. -/
namespace TickToTrade
open ExecutionManagementSystem

/-- The shares of one answered call, where it is a fill of the order that was taken. -/
def takenFill (id : UInt64) : EmsCall × EmsAnswer → Option ℕ
  | (.executed k fillQuantity _,.done true) => if k = id then some fillQuantity.toNat else none
  | _ => none

/-- The fills of an order taken in a run, in order. -/
def takenFills (id : UInt64) (calls : List EmsCall) (answers : List EmsAnswer) : List ℕ :=
  (calls.zip answers).filterMap (takenFill id)

lemma takenFills_append {calls calls' : List EmsCall} {answers answers' : List EmsAnswer} (id : UInt64)
    (h : answers.length = calls.length) : takenFills id (calls ++ calls') (answers ++ answers') =
      takenFills id calls answers ++ takenFills id calls' answers' := by
  rw [takenFills,List.zip_append h.symm,List.filterMap_append]
  rfl

lemma takenFills_singleton (id : UInt64) (c : EmsCall) (r : EmsAnswer) :
    takenFills id [c] [r] = (takenFill id (c,r)).toList := by
  rw [takenFills,List.zip_cons_cons,List.zip_nil_left]
  cases h : takenFill id (c,r) <;> simp [h]

lemma takenFill_of_ne {id : UInt64} {c : EmsCall} (h : id ≠ c.id) (r : EmsAnswer) :
    takenFill id (c,r) = none := by
  cases c with
  | executed k fillQuantity fillPrice =>
    unfold takenFill
    split
    · rename_i heq
      obtain ⟨hk,_⟩ := Prod.mk.inj heq
      obtain ⟨rfl,rfl,rfl⟩ := EmsCall.executed.inj hk
      exact if_neg (Ne.symm h)
    · rfl
  | _ => rfl

lemma takenFill_apply_none (id : UInt64) (c : EmsCall) : takenFill id (c,(c.apply none).1) = none := by
  cases c <;> rfl

/-- The record of an order agrees with the fills it has taken. -/
structure EMSOrder.Accounts (order : EMSOrder) (fills : List ℕ) : Prop where
  sum : order.executedQuantity.toNat = fills.sum
  bounded : order.executedQuantity ≤ order.originalQuantity
  state : ¬ (order.state = .canceled ∨ order.state = .rejected) → fills ≠ [] →
    order.state = if order.executedQuantity = order.originalQuantity then .filled else .partiallyFilled

/-- A fill of an order that still takes fills stays within what is left of the order. -/
def EmsCall.FillFits (order : EMSOrder) : EmsCall → Prop
  | .executed _ fillQuantity _ => ¬ (order.state = .canceled ∨ order.state = .rejected) →
    order.executedQuantity.toNat + fillQuantity.toNat ≤ order.originalQuantity.toNat
  | _ => True

instance (c : EmsCall) (order : EMSOrder) : Decidable (c.FillFits order) :=
  match c with
  | .executed _ _ _ => inferInstanceAs (Decidable (_ → _))
  | .sent _ _ _ => inferInstanceAs (Decidable True)
  | .accepted _ => inferInstanceAs (Decidable True)
  | .rejected _ => inferInstanceAs (Decidable True)
  | .canceled _ => inferInstanceAs (Decidable True)
  | .getOrderState _ => inferInstanceAs (Decidable True)
  | .getOrder _ => inferInstanceAs (Decidable True)

lemma EMSOrder.Accounts.execute {order : EMSOrder} {fills : List ℕ} (h : order.Accounts fills)
    {fillQuantity : UInt32}
    (hfits : order.executedQuantity.toNat + fillQuantity.toNat ≤ order.originalQuantity.toNat) :
    EMSOrder.Accounts { order with
      executedQuantity := order.executedQuantity + fillQuantity
      state := if order.originalQuantity ≤ order.executedQuantity + fillQuantity then .filled
        else .partiallyFilled } (fills ++ [fillQuantity.toNat]) := by
  have hsum : (order.executedQuantity + fillQuantity).toNat =
      order.executedQuantity.toNat + fillQuantity.toNat := by
    rw [UInt32.toNat_add]
    have := order.originalQuantity.toNat_lt
    omega
  have hle : order.executedQuantity + fillQuantity ≤ order.originalQuantity := by
    rw [UInt32.le_iff_toNat_le,hsum]
    exact hfits
  refine ⟨by simp [hsum,h.sum],hle,fun _ _ => ?_⟩
  dsimp only
  by_cases heq : order.executedQuantity + fillQuantity = order.originalQuantity
  · rw [if_pos heq,if_pos (by rw [heq]; exact UInt32.le_refl _)]
  · rw [if_neg heq,if_neg fun hge => heq (UInt32.le_antisymm hle hge)]

theorem EMSOrder.Accounts.change {order : EMSOrder} {fills : List ℕ} (h : order.Accounts fills) (c : EmsCall)
    (hfits : c.FillFits order) :
    (c.change order).Accounts (fills ++ (takenFill c.id (c,(c.apply (some order)).1)).toList) := by
  cases c with
  | accepted id =>
    rw [show takenFill _ (EmsCall.accepted id,_) = none from rfl,Option.toList_none,List.append_nil]
    simp only [EmsCall.change,EMSOrder.accept]
    split
    · exact h
    · rename_i hpending
      rw [not_not] at hpending
      refine ⟨h.sum,h.bounded,fun _ hfills => ?_⟩
      have hstate := h.state (by simp [hpending]) hfills
      rw [hpending] at hstate
      split at hstate <;> contradiction
  | rejected id => exact ⟨by simpa [takenFill,EmsCall.change] using h.sum,h.bounded,by simp [EmsCall.change]⟩
  | canceled id => exact ⟨by simpa [takenFill,EmsCall.change] using h.sum,h.bounded,by simp [EmsCall.change]⟩
  | executed id fillQuantity fillPrice =>
    by_cases hdead : order.state = .canceled ∨ order.state = .rejected
    · simpa [EmsCall.change,EmsCall.apply,EMSOrder.callback_some,EMSOrder.execute_of_dead hdead,takenFill] using h
    · simpa [EmsCall.change,EmsCall.apply,EMSOrder.callback_some,EMSOrder.execute_of_not_dead hdead,takenFill,
        EmsCall.id] using h.execute (hfits hdead)
  | sent id price quantity => simpa [takenFill,EmsCall.change] using h
  | getOrderState id => simpa [takenFill,EmsCall.change] using h
  | getOrder id => simpa [takenFill,EmsCall.change] using h

namespace ExecutionManagementSystem

variable {e : ExecutionManagementSystem} {calls : List EmsCall} {answers : List EmsAnswer} {maxOrders : ℕ}

/-- After every part of the run the records agree with the fills taken, and no executed quantity
ever decreases. -/
structure FillAccounting (maxOrders : ℕ) (calls : List EmsCall) : Prop where
  accounts : ∀ pre post, calls = pre ++ post →
    ∀ answers e, run ExecutionManagementSystem.call (init maxOrders) pre = some (answers,e) →
    ∀ id order, e.getOrder id = some (some order) → order.Accounts (takenFills id pre answers)
  monotone : ∀ pre mid post, calls = pre ++ mid ++ post →
    ∀ before e, run ExecutionManagementSystem.call (init maxOrders) pre = some (before,e) →
    ∀ between e', run ExecutionManagementSystem.call e mid = some (between,e') →
    ∀ id order, e.getOrder id = some (some order) →
      ∃ order', e'.getOrder id = some (some order') ∧ order.executedQuantity ≤ order'.executedQuantity

/-- The account of every record, where all fills fit; an order not recorded has taken none. -/
lemma accounts_of_run (hmax : 1 ≤ maxOrders) (hfits : EveryCallFinds (fun c order => c.FillFits order) maxOrders calls)
    (hrun : run ExecutionManagementSystem.call (init maxOrders) calls = some (answers,e)) :
    ∃ m, Refines e m ∧ ∀ id, (m.orders.lookup id = none → takenFills id calls answers = []) ∧
      ∀ order, m.orders.lookup id = some order → order.Accounts (takenFills id calls answers) := by
  refine run_record_induction (I := fun pre before id found => (found = none → takenFills id pre before = []) ∧
    ∀ order, found = some order → order.Accounts (takenFills id pre before)) (refines_init hmax) ?_ ?_ hrun
  · intro id
    exact ⟨fun _ => rfl,fun order horder => by simp at horder⟩
  · intro pre c post before u m hcalls hpre h hI id
    rw [takenFills_append id (run_length hpre),takenFills_singleton]
    by_cases hid : id = c.id
    · subst hid
      obtain ⟨hunknown,haccounts⟩ := hI c.id
      rw [if_pos rfl]
      cases hfound : m.orders.lookup c.id with
      | none =>
        rw [hunknown hfound,takenFill_apply_none]
        refine ⟨fun _ => rfl,fun order horder => ?_⟩
        obtain ⟨_,_,_,_,rfl⟩ := EmsCall.apply_none horder
        exact ⟨rfl,UInt32.zero_le,fun _ hfills => absurd rfl hfills⟩
      | some order =>
        rw [EmsCall.apply_some]
        refine ⟨fun hnone => by contradiction,fun order' horder' => ?_⟩
        obtain rfl := Option.some.inj horder'
        exact (haccounts order hfound).change c
          (hfits pre c post hcalls before u hpre order (h.getOrder_eq_iff.mpr hfound))
    · rw [if_neg hid,takenFill_of_ne hid,Option.toList_none,List.append_nil]
      exact hI id

/-- The fill account of a run is exact exactly when every fill of an order that still takes fills
stays within what is left of the order. -/
theorem run_fillAccounting_iff (maxOrders : ℕ) (hmax : 1 ≤ maxOrders) (calls : List EmsCall) :
    FillAccounting maxOrders calls ↔ EveryCallFinds (fun c order => c.FillFits order) maxOrders calls := by
  constructor
  · intro haccounting pre c post hcalls before e hrun order horder
    cases c with
    | executed id fillQuantity fillPrice =>
      intro halive
      obtain ⟨m,h,_⟩ := refines_of_run (refines_init hmax) hrun
      have hlookup : m.orders.lookup id = some order := h.getOrder_eq_iff.mp horder
      obtain ⟨⟨r,e'⟩,hcall⟩ := Option.isSome_iff_exists.mp
        (h.call_isSome (c := .executed id fillQuantity fillPrice) hlookup)
      obtain ⟨rfl,m',h',hlookup'⟩ := h.call_records hcall
      have hchange : m'.orders.lookup id = some ((order.execute fillQuantity).getD order) := by
        rw [hlookup' id,EmsCall.id,if_pos rfl,hlookup,EmsCall.apply_some]
        rfl
      have hold := (haccounting.accounts pre _ hcalls before e hrun id order horder).sum
      have hnew := haccounting.accounts (pre ++ [.executed id fillQuantity fillPrice]) post (by simp [hcalls]) _ e'
        (run_concat hrun hcall) id _ (h'.getOrder_eq_iff.mpr hchange)
      have hsum := hnew.sum
      have hbounded := hnew.bounded
      rw [EMSOrder.execute_of_not_dead halive] at hsum hbounded
      rw [takenFills_append id (run_length hrun),takenFills_singleton,List.sum_append,← hold] at hsum
      simp only [EmsCall.id,hlookup,EmsCall.apply,EMSOrder.callback_some,EMSOrder.execute_of_not_dead halive,
        takenFill,Option.isSome_some,if_true,Option.toList_some,List.sum_singleton,Option.getD_some] at hsum
      rw [UInt32.le_iff_toNat_le] at hbounded
      exact hsum ▸ hbounded
    | _ => trivial
  · intro hfits
    have haccounts : ∀ pre post, calls = pre ++ post → ∀ answers e,
        run ExecutionManagementSystem.call (init maxOrders) pre = some (answers,e) → ∀ id order,
        e.getOrder id = some (some order) → order.Accounts (takenFills id pre answers) := by
      intro pre post hcalls answers e hrun id order horder
      obtain ⟨m,h,haccounts⟩ := accounts_of_run hmax (hfits.of_append hcalls) hrun
      exact (haccounts id).2 order (h.getOrder_eq_iff.mp horder)
    refine ⟨haccounts,fun pre mid post hcalls before e hrun between e' hmid id order horder => ?_⟩
    obtain ⟨m,h,_⟩ := refines_of_run (refines_init hmax) hrun
    obtain ⟨m',h',_,hkeys,_⟩ := refines_of_run h hmid
    have hknown : id ∈ m'.orders := by
      have hmem : id ∈ m.orders := Finmap.mem_iff.mpr ⟨order,h.getOrder_eq_iff.mp horder⟩
      rw [← Finmap.mem_keys,hkeys]
      exact Finset.mem_union_left _ (Finmap.mem_keys.mpr hmem)
    obtain ⟨order',horder'⟩ := Finmap.mem_iff.mp hknown
    have hget := h'.getOrder_eq_iff.mpr horder'
    refine ⟨order',hget,?_⟩
    have hsum := (haccounts pre (mid ++ post) (by simp [hcalls]) before e hrun id order horder).sum
    have hsum' := (haccounts (pre ++ mid) post hcalls _ e'
      (run_append_eq_some.mpr ⟨e,before,between,hrun,hmid,rfl⟩) id order' hget).sum
    rw [takenFills_append id (run_length hrun),List.sum_append] at hsum'
    rw [UInt32.le_iff_toNat_le]
    omega

/-- Two partial fills and a cancel; a fill after it is refused. -/
theorem run_fillAccounting_iff_partial_fills : FillAccounting 1
      [.sent 1 50 10,.executed 1 4 50,.accepted 1,.executed 1 5 50,.canceled 1,.executed 1 9 50] ∧
    (run ExecutionManagementSystem.call (init 1) [.sent 1 50 10,.executed 1 4 50,.accepted 1,.executed 1 5 50,
      .canceled 1,.executed 1 9 50]).isSome := by
  refine ⟨(run_fillAccounting_iff 1 (by decide) _).mpr ?_,by decide +kernel⟩
  exact everyCallFinds_of_take (by decide +kernel)

/-- The same fill received twice takes the order to twice its quantity. -/
theorem repeated_fill_exceeds_order : ¬ FillAccounting 1 [.sent 1 50 10,.executed 1 10 50,.executed 1 10 50] := by
  intro haccounting
  have hbounded := (haccounting.accounts _ [] (List.append_nil _).symm _ _ rfl 1 ⟨1,50,10,20,.filled⟩ rfl).bounded
  revert hbounded
  decide

end ExecutionManagementSystem
end TickToTrade
