import TickToTrade.Ems.Refinement
import TickToTrade.Library.Run

/-! How long the system can run. No call gives an entry back, so what counts is not how many
orders are open but how many distinct ids have ever been sent. -/
namespace TickToTrade.ExecutionManagementSystem
open Probing

/-- The distinct ids sent in a run. -/
def sentIds : List EmsCall → Finset UInt64
  | [] => ∅
  | .sent id _ _ :: calls => insert id (sentIds calls)
  | _ :: calls => sentIds calls

lemma keys_callback (m : OrderRecords) (id : UInt64) (change : EMSOrder → Option EMSOrder) :
    (m.callback id change).2.orders.keys = m.orders.keys := by
  unfold OrderRecords.callback
  split
  · rfl
  · rename_i order horder
    obtain ⟨old,hold,_⟩ := Option.bind_eq_some_iff.mp horder
    have hmem : id ∈ m.orders.keys := Finmap.mem_keys.mpr (Finmap.mem_iff.mpr ⟨old,hold⟩)
    rw [m.keys_insert,Finset.insert_eq_self]
    exact hmem

lemma keys_call (m : OrderRecords) (c : EmsCall) :
    (m.call c).2.orders.keys = m.orders.keys ∪ sentIds [c] := by
  cases c with
  | sent id price quantity =>
    refine (m.keys_sent id price quantity).trans ?_
    rw [sentIds,sentIds,Finset.insert_eq,Finset.union_comm]
    rfl
  | accepted id => simpa [sentIds,OrderRecords.call] using keys_callback m id _
  | rejected id => simpa [sentIds,OrderRecords.call] using keys_callback m id _
  | executed id fillQuantity fillPrice => simpa [sentIds,OrderRecords.call] using keys_callback m id _
  | canceled id => simpa [sentIds,OrderRecords.call] using keys_callback m id _
  | getOrderState id => simp [sentIds,OrderRecords.call]
  | getOrder id => simp [sentIds,OrderRecords.call]

lemma sentIds_cons (c : EmsCall) (calls : List EmsCall) : sentIds (c :: calls) = sentIds [c] ∪ sentIds calls := by
  cases c <;> simp [sentIds]

/-- A returning run has answered as the map does and recorded exactly the ids sent. -/
theorem refines_of_run {e e' : ExecutionManagementSystem} {m : OrderRecords} {calls : List EmsCall}
    {answers : List EmsAnswer} (h : Refines e m)
    (hrun : run ExecutionManagementSystem.call e calls = some (answers,e')) :
    ∃ m', Refines e' m' ∧ e'.mapCapacity = e.mapCapacity ∧ m'.orders.keys = m.orders.keys ∪ sentIds calls ∧
      runTotal OrderRecords.call m calls = (answers,m') := by
  induction calls generalizing e m answers with
  | nil =>
    obtain ⟨rfl,rfl⟩ := Prod.mk.inj (Option.some.inj hrun)
    exact ⟨m,h,rfl,by simp [sentIds],rfl⟩
  | cons c calls ih =>
    obtain ⟨r,e₁,rs,hcall,hrest,rfl⟩ := run_cons_eq_some.mp hrun
    by_cases hroom : c.id ∈ m.orders ∨ m.orders.keys.card < e.mapCapacity
    · obtain ⟨e₂,he₂,hcap,h₂⟩ := h.call c hroom
      obtain ⟨rfl,rfl⟩ := Prod.mk.inj (Option.some.inj (hcall.symm.trans he₂))
      obtain ⟨m',h',hcap',hkeys,hruns⟩ := ih h₂ hrest
      refine ⟨m',h',hcap'.trans hcap,?_,?_⟩
      · rw [hkeys,keys_call,Finset.union_assoc,← sentIds_cons]
      · rw [runTotal_cons,hruns]
    · rw [h.call_diverges c hroom] at hcall
      contradiction

/-- Every call of a run returns exactly when its id was sent before or fewer distinct ids were
sent before than the table has entries. -/
theorem run_returns_iff_within_budget (maxOrders : ℕ) (hmax : 1 ≤ maxOrders) (calls : List EmsCall) :
    (run ExecutionManagementSystem.call (init maxOrders) calls).isSome ↔
      ∀ pre c post, calls = pre ++ c :: post →
        c.id ∈ sentIds pre ∨ (sentIds pre).card < 2 * maxOrders := by
  have hstate : ∀ pre answers e, run ExecutionManagementSystem.call (init maxOrders) pre = some (answers,e) →
      ∀ c, (e.call c).isSome ↔ c.id ∈ sentIds pre ∨ (sentIds pre).card < 2 * maxOrders := by
    intro pre answers e hrun c
    obtain ⟨m,h,hcap,hkeys,_⟩ := refines_of_run (refines_init hmax) hrun
    have hkeys' : m.orders.keys = sentIds pre := by simpa using hkeys
    have hcap' : e.mapCapacity = 2 * maxOrders := by
      rw [hcap,Nat.mul_comm]
      rfl
    rw [← hkeys',← hcap',Finmap.mem_keys]
    by_cases hroom : c.id ∈ m.orders ∨ m.orders.keys.card < e.mapCapacity
    · obtain ⟨e',he',_⟩ := h.call c hroom
      simp [he',hroom]
    · simp [h.call_diverges c hroom,hroom]
  constructor
  · rintro hreturns pre c post rfl
    obtain ⟨⟨answers,e⟩,hrun⟩ := Option.isSome_iff_exists.mp hreturns
    obtain ⟨u,rs₁,rs₂,hpre,hpost,_⟩ := run_append_eq_some.mp hrun
    obtain ⟨r,s',_,hcall,_⟩ := run_cons_eq_some.mp hpost
    rw [← hstate pre rs₁ u hpre c,hcall]
    rfl
  · intro hall
    rw [run_isSome_iff]
    intro pre c post hcalls answers e hrun
    exact (hstate pre answers e hrun c).mpr (hall pre c post hcalls)

/-- Two ids in a table of two entries, each used again after it was sent. -/
theorem run_returns_iff_within_budget_two_ids :
    (run ExecutionManagementSystem.call (init 1)
      [.sent 1 50 10,.canceled 1,.sent 2 50 10,.getOrderState 1,.executed 2 10 50]).isSome ∧
    ∀ pre c post, [.sent 1 50 10,.canceled 1,.sent 2 50 10,.getOrderState 1,.executed 2 10 50] =
      pre ++ c :: post → c.id ∈ sentIds pre ∨ (sentIds pre).card < 2 * 1 :=
  ⟨by decide +kernel,(run_returns_iff_within_budget 1 (by decide) _).mp (by decide +kernel)⟩

/-- Orders in a state on which the exchange may still act. -/
def openOrders (e : ExecutionManagementSystem) : ℕ :=
  (List.range e.mapCapacity).countP fun i => decide (e.orderMap i).value.Open

/-- At every moment of the run at most `maxOrders` orders are open. -/
def WithinCapacity (maxOrders : ℕ) (calls : List EmsCall) : Prop :=
  ∀ pre post, calls = pre ++ post → ∀ answers e,
    run ExecutionManagementSystem.call (init maxOrders) pre = some (answers,e) → e.openOrders ≤ maxOrders

lemma withinCapacity_of_take {maxOrders : ℕ} {calls : List EmsCall}
    (h : ∀ n ≤ calls.length, ∀ answers e, run ExecutionManagementSystem.call (init maxOrders) (calls.take n) =
      some (answers,e) → e.openOrders ≤ maxOrders) : WithinCapacity maxOrders calls := by
  rintro pre post rfl answers e hrun
  apply h pre.length (by simp) answers e
  rwa [List.take_left]

/-- One open order at a time in a system for one order: after two orders were canceled their
entries are still taken, and the search for a third id goes round for ever. -/
theorem probe_never_ends_after_two_canceled_orders :
    WithinCapacity 1 [.sent 1 50 10,.canceled 1,.sent 2 50 10,.canceled 2,.sent 3 50 10] ∧
    run ExecutionManagementSystem.call (init 1)
      [.sent 1 50 10,.canceled 1,.sent 2 50 10,.canceled 2,.sent 3 50 10] = none ∧
    ∃ e, run ExecutionManagementSystem.call (init 1) [.sent 1 50 10,.canceled 1,.sent 2 50 10,.canceled 2] =
      some ([.done true,.done true,.done true,.done true],e) ∧
    ∀ fuel, probeLoop e.mapCapacity (e.findBody 3) fuel (UInt64.toNat 3 % e.mapCapacity) = none := by
  refine ⟨withinCapacity_of_take fun n hn answers e hrun => ?_,rfl,_,rfl,fun fuel => ?_⟩
  · have hopen : ∀ n ≤ 5, (run ExecutionManagementSystem.call (init 1) ([.sent 1 50 10,.canceled 1,
        .sent 2 50 10,.canceled 2,.sent 3 50 10].take n)).all fun p => decide (p.2.openOrders ≤ 1) := by
      decide +kernel
    exact of_run_all (P := fun e => e.openOrders ≤ 1) (hopen n hn) hrun
  · exact probeLoop_diverges (by decide) (by rfl) fuel

end TickToTrade.ExecutionManagementSystem
