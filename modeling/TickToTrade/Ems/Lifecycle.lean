import TickToTrade.Ems.Capacity

/-! The life of one order. A call acts on the record under its id and on no other, so the system
is looked at one order at a time: which calls leave a finished order alone, and what the fills of
an order add up to. -/
namespace TickToTrade

/-- A callback on the record under its id. -/
def EMSOrder.callback (change : EMSOrder → Option EMSOrder) (found : Option EMSOrder) :
    EmsAnswer × Option EMSOrder :=
  match found.bind change with
  | none => (.done false,found)
  | some order => (.done true,some order)

/-- What a call does to the record under its id, and what it answers. -/
def EmsCall.apply (found : Option EMSOrder) : EmsCall → EmsAnswer × Option EMSOrder
  | .sent id price quantity =>
    match found with
    | none => (.done true,some ⟨id,price,quantity,0,.pendingNew⟩)
    | some order => (.done false,some order)
  | .accepted _ => EMSOrder.callback EMSOrder.accept found
  | .rejected _ => EMSOrder.callback EMSOrder.reject found
  | .executed _ fillQuantity _ => EMSOrder.callback (EMSOrder.execute fillQuantity) found
  | .canceled _ => EMSOrder.callback EMSOrder.cancel found
  | .getOrderState _ => (.state (found.elim .none EMSOrder.state),found)
  | .getOrder _ => (.order found,found)

namespace OrderRecords

lemma sent_apply (m : OrderRecords) (id : UInt64) (price quantity : UInt32) :
    EmsAnswer.done (m.sent id price quantity).1 =
      (EmsCall.apply (m.orders.lookup id) (.sent id price quantity)).1 ∧
    ∀ k, (m.sent id price quantity).2.orders.lookup k = if k = id then
      (EmsCall.apply (m.orders.lookup id) (.sent id price quantity)).2 else m.orders.lookup k := by
  cases hfound : m.orders.lookup id with
  | none =>
    rw [sent,if_neg (Finmap.lookup_eq_none.mp hfound)]
    refine ⟨rfl,fun k => ?_⟩
    by_cases hk : k = id
    · rw [hk,if_pos rfl]
      exact Finmap.lookup_insert _
    · rw [if_neg hk]
      exact Finmap.lookup_insert_of_ne _ hk
  | some order =>
    rw [sent,if_pos (Finmap.mem_iff.mpr ⟨order,hfound⟩)]
    refine ⟨rfl,fun k => ?_⟩
    by_cases hk : k = id
    · rw [hk,if_pos rfl]
      exact hfound
    · rw [if_neg hk]

lemma callback_apply (m : OrderRecords) (id : UInt64) (change : EMSOrder → Option EMSOrder) :
    EmsAnswer.done (m.callback id change).1 = (EMSOrder.callback change (m.orders.lookup id)).1 ∧
    ∀ k, (m.callback id change).2.orders.lookup k = if k = id then
      (EMSOrder.callback change (m.orders.lookup id)).2 else m.orders.lookup k := by
  unfold callback EMSOrder.callback
  cases (m.orders.lookup id).bind change with
  | none =>
    refine ⟨rfl,fun k => ?_⟩
    by_cases hk : k = id
    · rw [hk,if_pos rfl]
    · rw [if_neg hk]
  | some order =>
    refine ⟨rfl,fun k => ?_⟩
    by_cases hk : k = id
    · rw [hk,if_pos rfl]
      exact Finmap.lookup_insert _
    · rw [if_neg hk]
      exact Finmap.lookup_insert_of_ne _ hk

theorem call_apply (m : OrderRecords) (c : EmsCall) :
    (m.call c).1 = (c.apply (m.orders.lookup c.id)).1 ∧
    ∀ k, (m.call c).2.orders.lookup k =
      if k = c.id then (c.apply (m.orders.lookup c.id)).2 else m.orders.lookup k := by
  cases c with
  | sent id price quantity => exact m.sent_apply id price quantity
  | accepted id => exact m.callback_apply id EMSOrder.accept
  | rejected id => exact m.callback_apply id EMSOrder.reject
  | executed id fillQuantity fillPrice => exact m.callback_apply id (EMSOrder.execute fillQuantity)
  | canceled id => exact m.callback_apply id EMSOrder.cancel
  | getOrderState id =>
    refine ⟨rfl,fun k => ?_⟩
    by_cases hk : k = id
    · subst hk
      exact (if_pos rfl).symm
    · exact (if_neg hk).symm
  | getOrder id =>
    refine ⟨rfl,fun k => ?_⟩
    by_cases hk : k = id
    · subst hk
      exact (if_pos rfl).symm
    · exact (if_neg hk).symm

end OrderRecords

namespace ExecutionManagementSystem

variable {e e' : ExecutionManagementSystem} {m : OrderRecords} {calls : List EmsCall} {answers : List EmsAnswer}

lemma Refines.getOrder_eq_iff (h : Refines e m) {id : UInt64} {order : EMSOrder} :
    e.getOrder id = some (some order) ↔ m.orders.lookup id = some order := by
  by_cases hroom : id ∈ m.orders ∨ m.orders.keys.card < e.mapCapacity
  · rw [h.getOrder hroom,Option.some.injEq]
  · have hid : id ∉ m.orders := fun hid => hroom (.inl hid)
    have hfind := h.mapFind_diverges hid (Nat.le_of_not_lt fun hlt => hroom (.inr hlt))
    simp [ExecutionManagementSystem.getOrder,hfind,Finmap.lookup_eq_none.mpr hid]

lemma Refines.call_isSome (h : Refines e m) {c : EmsCall} {order : EMSOrder}
    (hlookup : m.orders.lookup c.id = some order) : (e.call c).isSome := by
  obtain ⟨e',he',_⟩ := h.call c (.inl (Finmap.mem_iff.mpr ⟨order,hlookup⟩))
  rw [he']
  rfl

theorem Refines.call_records (h : Refines e m) {c : EmsCall} {r : EmsAnswer} (hcall : e.call c = some (r,e')) :
    r = (c.apply (m.orders.lookup c.id)).1 ∧ ∃ m', Refines e' m' ∧ ∀ k, m'.orders.lookup k =
      if k = c.id then (c.apply (m.orders.lookup c.id)).2 else m.orders.lookup k := by
  have hroom : c.id ∈ m.orders ∨ m.orders.keys.card < e.mapCapacity := by
    by_contra hfull
    rw [h.call_diverges c hfull] at hcall
    contradiction
  obtain ⟨e₂,he₂,_,h₂⟩ := h.call c hroom
  obtain ⟨rfl,rfl⟩ := Prod.mk.inj (Option.some.inj (hcall.symm.trans he₂))
  exact ⟨(m.call_apply c).1,(m.call c).2,h₂,(m.call_apply c).2⟩

/-- Induction along a run, one record at a time, with the calls and answers so far. -/
theorem run_record_induction {I : List EmsCall → List EmsAnswer → UInt64 → Option EMSOrder → Prop}
    (h : Refines e m) (hinit : ∀ id, I [] [] id (m.orders.lookup id))
    (hstep : ∀ pre c post before u m, calls = pre ++ c :: post →
      run ExecutionManagementSystem.call e pre = some (before,u) → Refines u m →
      (∀ id, I pre before id (m.orders.lookup id)) →
      ∀ id, I (pre ++ [c]) (before ++ [(c.apply (m.orders.lookup c.id)).1]) id
        (if id = c.id then (c.apply (m.orders.lookup c.id)).2 else m.orders.lookup id))
    (hrun : run ExecutionManagementSystem.call e calls = some (answers,e')) :
    ∃ m', Refines e' m' ∧ ∀ id, I calls answers id (m'.orders.lookup id) := by
  refine run_induction (I := fun pre before u => ∃ m', Refines u m' ∧
    ∀ id, I pre before id (m'.orders.lookup id)) ⟨m,h,hinit⟩ ?_ hrun
  intro pre c post before u r u' hcalls hpre hI hcall
  obtain ⟨m₁,h₁,hI⟩ := hI
  obtain ⟨rfl,m₂,h₂,hlookup⟩ := h₁.call_records hcall
  refine ⟨m₂,h₂,fun id => ?_⟩
  rw [hlookup]
  exact hstep pre c post before u m₁ hcalls hpre h₁ hI id

end ExecutionManagementSystem

namespace EMSOrder

/-- The states in which the life of an order is over. -/
def Terminal (order : EMSOrder) : Prop :=
  order.state = .filled ∨ order.state = .canceled ∨ order.state = .rejected

instance (order : EMSOrder) : Decidable order.Terminal := inferInstanceAs (Decidable (_ ∨ _ ∨ _))

/-- What the comparison in `onOrderExecuted` leaves true of a filled order. -/
def FillReached (order : EMSOrder) : Prop :=
  order.state = .filled → order.originalQuantity ≤ order.executedQuantity

/-- The two fields a finished order must keep. -/
def SameOutcome (order order' : EMSOrder) : Prop :=
  order'.state = order.state ∧ order'.executedQuantity = order.executedQuantity

end EMSOrder

/-- The calls that leave a finished order alone: it is rejected or canceled only where it was so
before, and a filled order takes no further shares. -/
def EmsCall.SparesTerminal (order : EMSOrder) : EmsCall → Prop
  | .rejected _ => order.state = .rejected
  | .canceled _ => order.state = .canceled
  | .executed _ fillQuantity _ => order.state = .filled → fillQuantity = 0
  | _ => True

instance (c : EmsCall) (order : EMSOrder) : Decidable (c.SparesTerminal order) :=
  match c with
  | .rejected _ => inferInstanceAs (Decidable (_ = _))
  | .canceled _ => inferInstanceAs (Decidable (_ = _))
  | .executed _ _ _ => inferInstanceAs (Decidable (_ → _))
  | .sent _ _ _ => inferInstanceAs (Decidable True)
  | .accepted _ => inferInstanceAs (Decidable True)
  | .getOrderState _ => inferInstanceAs (Decidable True)
  | .getOrder _ => inferInstanceAs (Decidable True)

/-- What is left of a recorded order after a call for its id. -/
def EmsCall.change (order : EMSOrder) : EmsCall → EMSOrder
  | .accepted _ => order.accept.getD order
  | .rejected _ => { order with state := .rejected }
  | .executed _ fillQuantity _ => (order.execute fillQuantity).getD order
  | .canceled _ => { order with state := .canceled }
  | _ => order

namespace EMSOrder

lemma callback_some (change : EMSOrder → Option EMSOrder) (order : EMSOrder) :
    callback change (some order) = (.done (change order).isSome,some ((change order).getD order)) := by
  unfold callback
  rw [Option.bind_some]
  cases change order <;> rfl

lemma execute_of_dead {order : EMSOrder} (h : order.state = .canceled ∨ order.state = .rejected) (q : UInt32) :
    order.execute q = none := if_pos h

lemma execute_of_not_dead {order : EMSOrder} (h : ¬ (order.state = .canceled ∨ order.state = .rejected))
    (q : UInt32) : order.execute q = some { order with
      executedQuantity := order.executedQuantity + q
      state := if order.originalQuantity ≤ order.executedQuantity + q then .filled else .partiallyFilled } :=
  if_neg h

end EMSOrder

namespace EmsCall

lemma apply_some (c : EmsCall) (order : EMSOrder) : (c.apply (some order)).2 = some (c.change order) := by
  cases c with
  | accepted id => simp only [apply,change,EMSOrder.callback_some]
  | executed id fillQuantity fillPrice => simp only [apply,change,EMSOrder.callback_some]
  | _ => rfl

lemma apply_none {c : EmsCall} {order : EMSOrder} (h : (c.apply none).2 = some order) :
    ∃ id price quantity, c = .sent id price quantity ∧ order = ⟨id,price,quantity,0,.pendingNew⟩ := by
  cases c with
  | sent id price quantity => exact ⟨id,price,quantity,rfl,(Option.some.inj h).symm⟩
  | _ => contradiction

lemma fillReached_change {order : EMSOrder} (c : EmsCall) (h : order.FillReached) :
    (c.change order).FillReached := by
  cases c with
  | accepted id =>
    simp only [change,EMSOrder.accept]
    split
    · exact h
    · simp [EMSOrder.FillReached]
  | rejected id => simp [change,EMSOrder.FillReached]
  | canceled id => simp [change,EMSOrder.FillReached]
  | executed id fillQuantity fillPrice =>
    by_cases hdead : order.state = .canceled ∨ order.state = .rejected
    · rw [change,EMSOrder.execute_of_dead hdead]
      exact h
    · rw [change,EMSOrder.execute_of_not_dead hdead]
      intro hfilled
      by_contra hshort
      simp only [Option.getD_some] at hfilled hshort
      rw [if_neg hshort] at hfilled
      contradiction
  | _ => exact h

/-- A call keeps the outcome of a finished order exactly when it is one of those that spare it. -/
theorem sameOutcome_change_iff {order : EMSOrder} (c : EmsCall) (hterminal : order.Terminal)
    (hfill : order.FillReached) : order.SameOutcome (c.change order) ↔ c.SparesTerminal order := by
  unfold EMSOrder.SameOutcome
  cases c with
  | accepted id =>
    have hstate : order.state ≠ .pendingNew := by
      intro hpending
      simp [EMSOrder.Terminal,hpending] at hterminal
    simp [change,SparesTerminal,EMSOrder.accept,hstate]
  | rejected id => simp [change,SparesTerminal,eq_comm]
  | canceled id => simp [change,SparesTerminal,eq_comm]
  | executed id fillQuantity fillPrice =>
    by_cases hdead : order.state = .canceled ∨ order.state = .rejected
    · have hstate : order.state ≠ .filled := by
        intro hfilled
        simp [hfilled] at hdead
      simp [change,SparesTerminal,EMSOrder.execute_of_dead hdead,hstate]
    · have hfilled : order.state = .filled := hterminal.resolve_right hdead
      rw [change,EMSOrder.execute_of_not_dead hdead]
      simp only [SparesTerminal,hfilled,Option.getD_some,forall_const]
      constructor
      · rintro ⟨_,hsum⟩
        simpa using hsum
      · rintro rfl
        simpa using hfill hfilled
  | _ => simp [change,SparesTerminal]

end EmsCall

namespace ExecutionManagementSystem

/-- Once an order is finished, the calls that follow in the run leave its state and its executed
quantity as they are. -/
def TerminalAbsorbing (maxOrders : ℕ) (calls : List EmsCall) : Prop :=
  ∀ pre mid post, calls = pre ++ mid ++ post →
  ∀ before e, run ExecutionManagementSystem.call (init maxOrders) pre = some (before,e) →
  ∀ between e', run ExecutionManagementSystem.call e mid = some (between,e') →
  ∀ id order, e.getOrder id = some (some order) → order.Terminal →
    ∃ order', e'.getOrder id = some (some order') ∧ order.SameOutcome order'

/-- Every call of the run that finds a record under its id meets `Q` there. -/
def EveryCallFinds (Q : EmsCall → EMSOrder → Prop) (maxOrders : ℕ) (calls : List EmsCall) : Prop :=
  ∀ pre c post, calls = pre ++ c :: post →
  ∀ answers e, run ExecutionManagementSystem.call (init maxOrders) pre = some (answers,e) →
  ∀ order, e.getOrder c.id = some (some order) → Q c order

lemma EveryCallFinds.of_append {Q : EmsCall → EMSOrder → Prop} {maxOrders : ℕ} {pre post : List EmsCall}
    (h : EveryCallFinds Q maxOrders calls) (hcalls : calls = pre ++ post) : EveryCallFinds Q maxOrders pre := by
  rintro pre' c post' rfl
  exact h pre' c (post' ++ post) (by simp [hcalls])

lemma everyCallFinds_of_take {Q : EmsCall → EMSOrder → Prop} [∀ c, DecidablePred (Q c)] {maxOrders : ℕ}
    (h : ∀ n (hn : n < calls.length), (run ExecutionManagementSystem.call (init maxOrders) (calls.take n)).all
      fun p => (p.2.getOrder calls[n].id).join.all fun order => decide (Q calls[n] order)) :
    EveryCallFinds Q maxOrders calls := by
  apply forall_split_of_take
  intro n hn answers e hrun order horder
  have hat := h n hn
  rw [hrun,Option.all_some,horder] at hat
  simpa using hat

lemma fillReached_of_run {maxOrders : ℕ} (hmax : 1 ≤ maxOrders)
    (hrun : run ExecutionManagementSystem.call (init maxOrders) calls = some (answers,e)) :
    ∃ m, Refines e m ∧ ∀ id order, m.orders.lookup id = some order → order.FillReached := by
  refine run_record_induction (I := fun _ _ _ found => ∀ order, found = some order → order.FillReached)
    (refines_init hmax) ?_ ?_ hrun
  · intro id order horder
    simp at horder
  · intro pre c post before u m _ _ _ hI id order horder
    split at horder
    · cases hfound : m.orders.lookup c.id with
      | none =>
        rw [hfound] at horder
        obtain ⟨_,_,_,_,rfl⟩ := EmsCall.apply_none horder
        simp [EMSOrder.FillReached]
      | some old =>
        rw [hfound,EmsCall.apply_some] at horder
        obtain rfl := Option.some.inj horder
        exact c.fillReached_change (hI c.id old hfound)
    · exact hI id order horder

/-- Finished orders stay as they are in a run exactly when every call for a finished order is one
of those that spare it. -/
theorem run_terminalAbsorbing_iff (maxOrders : ℕ) (hmax : 1 ≤ maxOrders) (calls : List EmsCall) :
    TerminalAbsorbing maxOrders calls ↔
      EveryCallFinds (fun c order => order.Terminal → c.SparesTerminal order) maxOrders calls := by
  constructor
  · intro habsorb pre c post hcalls answers e hrun order horder hterminal
    obtain ⟨m,h,hfill⟩ := fillReached_of_run hmax hrun
    have hlookup := h.getOrder_eq_iff.mp horder
    obtain ⟨⟨r,e'⟩,hcall⟩ := Option.isSome_iff_exists.mp (h.call_isSome hlookup)
    obtain ⟨_,m',h',hlookup'⟩ := h.call_records hcall
    obtain ⟨order',horder',hsame⟩ := habsorb pre [c] post (by simpa using hcalls) answers e hrun [r] e'
      (run_cons_eq_some.mpr ⟨r,e',[],hcall,rfl,rfl⟩) c.id order horder hterminal
    have hchange := hlookup' c.id
    rw [if_pos rfl,hlookup,EmsCall.apply_some,h'.getOrder_eq_iff.mp horder'] at hchange
    obtain rfl := Option.some.inj hchange
    exact (c.sameOutcome_change_iff hterminal (hfill _ _ hlookup)).mp hsame
  · rintro hspares pre mid post rfl before e hrun between e' hmid id order horder hterminal
    obtain ⟨m,h,hfill⟩ := fillReached_of_run hmax hrun
    have hlookup := h.getOrder_eq_iff.mp horder
    have hkept : ∃ m', Refines e' m' ∧ ∀ k, k = id → ∃ order', m'.orders.lookup k = some order' ∧
        order.SameOutcome order' ∧ order'.FillReached := by
      -- along `mid` the order stays finished, so the condition applies to each call for it
      refine run_record_induction (I := fun _ _ k found => k = id → ∃ order', found = some order' ∧
        order.SameOutcome order' ∧ order'.FillReached) h ?_ ?_ hmid
      · rintro k rfl
        exact ⟨order,hlookup,⟨rfl,rfl⟩,hfill k order hlookup⟩
      rintro pre' c post' before' u m₁ rfl hpre' h₁ hI k rfl
      obtain ⟨order₁,hlookup₁,hsame₁,hfill₁⟩ := hI k rfl
      by_cases hk : k = c.id
      · subst hk
        have hterminal₁ : order₁.Terminal := by
          rw [EMSOrder.Terminal,hsame₁.1]
          exact hterminal
        have hreach : run ExecutionManagementSystem.call (init maxOrders) (pre ++ pre') =
            some (before ++ before',u) := run_append_eq_some.mpr ⟨e,before,before',hrun,hpre',rfl⟩
        have hspare := hspares (pre ++ pre') c (post' ++ post) (by simp) _ u hreach order₁
          (h₁.getOrder_eq_iff.mpr hlookup₁) hterminal₁
        have hsame := (c.sameOutcome_change_iff hterminal₁ hfill₁).mpr hspare
        refine ⟨c.change order₁,by rw [if_pos rfl,hlookup₁,EmsCall.apply_some],?_,c.fillReached_change hfill₁⟩
        exact ⟨hsame.1.trans hsame₁.1,hsame.2.trans hsame₁.2⟩
      · rw [if_neg hk]
        exact ⟨order₁,hlookup₁,hsame₁,hfill₁⟩
    obtain ⟨m',h',hI⟩ := hkept
    obtain ⟨order',hlookup',hsame,_⟩ := hI id rfl
    exact ⟨order',h'.getOrder_eq_iff.mpr hlookup',hsame⟩

/-- A run that sends, fills and repeats messages for finished orders without effect. -/
theorem run_terminalAbsorbing_iff_spared : TerminalAbsorbing 2
      [.sent 1 50 10,.executed 1 10 50,.accepted 1,.executed 1 0 50,.sent 2 50 10,.canceled 2,.canceled 2] ∧
    (run ExecutionManagementSystem.call (init 2) [.sent 1 50 10,.executed 1 10 50,.accepted 1,.executed 1 0 50,
      .sent 2 50 10,.canceled 2,.canceled 2]).isSome := by
  refine ⟨(run_terminalAbsorbing_iff 2 (by decide) _).mpr ?_,by decide +kernel⟩
  exact everyCallFinds_of_take (by decide +kernel)

/-- A late cancel takes a filled order back to `CANCELED`. -/
theorem filled_order_canceled : ¬ TerminalAbsorbing 1 [.sent 1 50 10,.executed 1 10 50,.canceled 1] := by
  intro habsorb
  obtain ⟨order,horder,hstate,_⟩ := habsorb [.sent 1 50 10,.executed 1 10 50] [.canceled 1] [] rfl _ _ rfl _ _ rfl
    1 ⟨1,50,10,10,.filled⟩ rfl (.inl rfl)
  obtain rfl : (⟨1,50,10,10,.canceled⟩ : EMSOrder) = order := Option.some.inj (Option.some.inj horder)
  contradiction

end ExecutionManagementSystem
end TickToTrade
