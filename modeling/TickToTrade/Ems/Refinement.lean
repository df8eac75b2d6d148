import TickToTrade.Ems.Model
import TickToTrade.Library.OpenTable
import Mathlib.Data.Finmap

/-! The system refines a plain map from order id to record. A call returns exactly when its id is
known or an entry is still free, and then answers as the map does. -/
namespace TickToTrade
open Probing

/-- The record of every order ever sent, under its id. -/
structure OrderRecords where
  orders : Finmap (fun _ : UInt64 => EMSOrder)

namespace OrderRecords

def sent (m : OrderRecords) (id : UInt64) (price quantity : UInt32) : Bool × OrderRecords :=
  if id ∈ m.orders then (false,m)
  else (true,⟨m.orders.insert id ⟨id,price,quantity,0,.pendingNew⟩⟩)

def callback (m : OrderRecords) (id : UInt64) (change : EMSOrder → Option EMSOrder) :
    Bool × OrderRecords :=
  match (m.orders.lookup id).bind change with
  | none => (false,m)
  | some order => (true,⟨m.orders.insert id order⟩)

def call (m : OrderRecords) : EmsCall → EmsAnswer × OrderRecords
  | .sent id price quantity => Prod.map .done (fun m => m) (m.sent id price quantity)
  | .accepted id => Prod.map .done (fun m => m) (m.callback id EMSOrder.accept)
  | .rejected id => Prod.map .done (fun m => m) (m.callback id EMSOrder.reject)
  | .executed id fillQuantity _ =>
    Prod.map .done (fun m => m) (m.callback id (EMSOrder.execute fillQuantity))
  | .canceled id => Prod.map .done (fun m => m) (m.callback id EMSOrder.cancel)
  | .getOrderState id => (.state ((m.orders.lookup id).elim .none EMSOrder.state),m)
  | .getOrder id => (.order (m.orders.lookup id),m)

lemma keys_insert (m : OrderRecords) (id : UInt64) (order : EMSOrder) :
    (m.orders.insert id order).keys = insert id m.orders.keys := by
  ext k
  simp [Finmap.mem_keys,Finmap.mem_insert]

lemma keys_sent (m : OrderRecords) (id : UInt64) (price quantity : UInt32) :
    (m.sent id price quantity).2.orders.keys = insert id m.orders.keys := by
  unfold sent
  split
  · rename_i hid
    exact (Finset.insert_eq_self.mpr (Finmap.mem_keys.mpr hid)).symm
  · exact m.keys_insert id _

end OrderRecords

namespace ExecutionManagementSystem

/-- A free entry is empty; there are no tombstones. -/
def HashEntry.slot (entry : HashEntry) : Slot UInt64 EMSOrder :=
  if entry.Free then .empty else .live entry.key entry.value

def table (e : ExecutionManagementSystem) (i : ℕ) : Slot UInt64 EMSOrder := (e.orderMap i).slot

lemma HashEntry.slot_of_state {entry : HashEntry} (h : entry.value.state ≠ .none) :
    entry.slot = .live entry.key entry.value := if_neg fun hfree => h hfree.2

@[simp] lemma table_setEntry (e : ExecutionManagementSystem) (i : ℕ) (entry : HashEntry) :
    (e.setEntry i entry).table = Function.update e.table i entry.slot := by
  funext j
  by_cases hj : j = i
  · subst j
    simp [table,setEntry]
  · simp [table,setEntry,hj]

lemma table_ne_tomb (e : ExecutionManagementSystem) (i : ℕ) : e.table i ≠ .tomb := by
  unfold table HashEntry.slot
  split <;> simp

lemma table_eq_live_iff {e : ExecutionManagementSystem} {i : ℕ} {k : UInt64} {order : EMSOrder} :
    e.table i = .live k order ↔
      ¬ (e.orderMap i).Free ∧ (e.orderMap i).key = k ∧ (e.orderMap i).value = order := by
  unfold table HashEntry.slot
  split <;> simp_all

lemma findBody_eq (e : ExecutionManagementSystem) (id : UInt64) (i : ℕ) :
    e.findBody id i = locateBody e.table id i := by
  unfold findBody locateBody table HashEntry.slot
  split <;> simp

lemma insertBody_eq (e : ExecutionManagementSystem) (order : EMSOrder) (i : ℕ) :
    e.insertBody order i =
      (placeBody e.table order.orderId i).map fun j => e.setEntry j ⟨order.orderId,order⟩ := by
  unfold insertBody placeBody table HashEntry.slot
  split
  · simp
  · by_cases hk : (e.orderMap i).key = order.orderId <;> simp [hk]

theorem mapFind_eq (e : ExecutionManagementSystem) (id : UInt64) :
    e.mapFind id = locate e.mapCapacity UInt64.toNat e.table id := by
  rw [mapFind,funext (e.findBody_eq id)]
  rfl

theorem mapInsert_eq (e : ExecutionManagementSystem) (order : EMSOrder) :
    e.mapInsert order = (place e.mapCapacity UInt64.toNat e.table order.orderId).map
      fun j => e.setEntry j ⟨order.orderId,order⟩ := by
  rw [mapInsert,funext (e.insertBody_eq order),probeLoop_map]
  rfl

/-- The table holds the records of the map, each in a state that is not `NONE`. -/
structure Refines (e : ExecutionManagementSystem) (m : OrderRecords) : Prop where
  capacity_pos : 0 < e.mapCapacity
  table_wf : WellFormed e.mapCapacity UInt64.toNat e.table
  table_maps : ∀ k order, Maps e.mapCapacity e.table k order ↔ m.orders.lookup k = some order
  used : ∀ k order, m.orders.lookup k = some order → order.state ≠ .none

theorem refines_init {maxOrders : ℕ} (h : 1 ≤ maxOrders) : Refines (init maxOrders) ⟨∅⟩ where
  capacity_pos := by
    simp only [init]
    omega
  table_wf := by
    have hempty : (init maxOrders).table = fun _ => .empty := by
      funext i
      rfl
    rw [hempty]
    exact wellFormed_empty
  table_maps k order := by simp [Maps,table,init,HashEntry.slot,HashEntry.Free]
  used k order := by simp

variable {e e' : ExecutionManagementSystem} {m : OrderRecords} {id : UInt64}

section Queries
variable (h : Refines e m)
include h

lemma Refines.exists_free_iff : (∃ i < e.mapCapacity, e.table i = .empty) ↔
    m.orders.keys.card < e.mapCapacity := by
  refine exists_empty_iff_card_lt h.table_wf (fun k => ?_) fun i _ => e.table_ne_tomb i
  simp only [h.table_maps,Finmap.mem_keys,← Finmap.lookup_isSome,Option.isSome_iff_exists]

lemma Refines.mapFind_live {order : EMSOrder} (hlookup : m.orders.lookup id = some order) :
    ∃ i < e.mapCapacity, e.mapFind id = some (some i) ∧ e.table i = .live id order := by
  obtain ⟨i,hi,hlive⟩ := (h.table_maps id order).mpr hlookup
  exact ⟨i,hi,by rw [mapFind_eq,locate_of_live h.table_wf hi hlive],hlive⟩

lemma Refines.not_maps (habsent : id ∉ m.orders) (order : EMSOrder) :
    ¬ Maps e.mapCapacity e.table id order := by
  rw [h.table_maps,Finmap.lookup_eq_none.mpr habsent]
  simp

lemma Refines.mapFind_absent (habsent : id ∉ m.orders) (hroom : m.orders.keys.card < e.mapCapacity) :
    e.mapFind id = some none := by
  have hreturns : (e.mapFind id).isSome := by
    rw [mapFind_eq,locate_absent_isSome_iff h.capacity_pos (h.not_maps habsent),h.exists_free_iff]
    exact hroom
  obtain ⟨found,hfound⟩ := Option.isSome_iff_exists.mp hreturns
  cases found with
  | none => exact hfound
  | some i =>
    rw [mapFind_eq] at hfound
    obtain ⟨hi,order,hlive⟩ := locate_sound h.capacity_pos hfound
    exact absurd ⟨i,hi,hlive⟩ (h.not_maps habsent order)

/-- Once every entry is taken, the search for an unknown id goes round for ever. -/
lemma Refines.mapFind_diverges (habsent : id ∉ m.orders) (hfull : e.mapCapacity ≤ m.orders.keys.card) :
    e.mapFind id = none := by
  rw [mapFind_eq,← Option.not_isSome_iff_eq_none,
    locate_absent_isSome_iff h.capacity_pos (h.not_maps habsent),h.exists_free_iff]
  omega

theorem Refines.insert (habsent : id ∉ m.orders) (hroom : m.orders.keys.card < e.mapCapacity)
    {order : EMSOrder} (hid : order.orderId = id) (hstate : order.state ≠ .none) :
    ∃ e', e.mapInsert order = some e' ∧ e'.mapCapacity = e.mapCapacity ∧
      Refines e' ⟨m.orders.insert id order⟩ := by
  subst hid
  obtain ⟨j,hj,hempty⟩ := h.exists_free_iff.mpr hroom
  have hfree : ∀ k o, e.table j ≠ .live k o := by simp [hempty]
  obtain ⟨i,hi⟩ := Option.isSome_iff_exists.mp
    (place_isSome UInt64.toNat order.orderId h.capacity_pos hj hfree)
  have hslot : (⟨order.orderId,order⟩ : HashEntry).slot = .live order.orderId order :=
    HashEntry.slot_of_state hstate
  refine ⟨e.setEntry i ⟨order.orderId,order⟩,by rw [mapInsert_eq,hi]; rfl,rfl,h.capacity_pos,?_,?_,?_⟩
  · rw [table_setEntry,hslot]
    exact h.table_wf.insert (h.not_maps habsent) hi h.capacity_pos order
  · intro k o
    rw [table_setEntry,hslot]
    change Maps e.mapCapacity _ k o ↔ _
    rw [maps_insert h.capacity_pos (h.not_maps habsent) hi,h.table_maps]
    by_cases hk : k = order.orderId
    · subst hk
      simp [Finmap.lookup_eq_none.mpr habsent,eq_comm]
    · simp [hk,Finmap.lookup_insert_of_ne _ hk]
  · intro k o hlookup
    by_cases hk : k = order.orderId
    · subst hk
      rw [Finmap.lookup_insert] at hlookup
      exact Option.some.inj hlookup ▸ hstate
    · rw [Finmap.lookup_insert_of_ne _ hk] at hlookup
      exact h.used k o hlookup

theorem Refines.overwrite {i : ℕ} {order order' : EMSOrder} (hi : i < e.mapCapacity)
    (hlive : e.table i = .live id order) (hstate : order'.state ≠ .none) :
    Refines (e.setEntry i { e.orderMap i with value := order' }) ⟨m.orders.insert id order'⟩ := by
  obtain ⟨_,hkey,_⟩ := table_eq_live_iff.mp hlive
  have hslot : ({ e.orderMap i with value := order' } : HashEntry).slot = .live id order' := by
    rw [← hkey]
    exact HashEntry.slot_of_state hstate
  refine ⟨h.capacity_pos,?_,?_,?_⟩
  · rw [table_setEntry,hslot]
    exact h.table_wf.overwrite hlive order'
  · intro k o
    rw [table_setEntry,hslot]
    change Maps e.mapCapacity _ k o ↔ _
    rw [maps_overwrite h.table_wf hi hlive,h.table_maps]
    by_cases hk : k = id
    · subst hk
      simp [eq_comm]
    · simp [hk,Finmap.lookup_insert_of_ne _ hk]
  · intro k o hlookup
    by_cases hk : k = id
    · subst hk
      rw [Finmap.lookup_insert] at hlookup
      exact Option.some.inj hlookup ▸ hstate
    · rw [Finmap.lookup_insert_of_ne _ hk] at hlookup
      exact h.used k o hlookup

end Queries

section Calls
variable (h : Refines e m) (hroom : id ∈ m.orders ∨ m.orders.keys.card < e.mapCapacity)
include h hroom

theorem Refines.onOrderSent (price quantity : UInt32) :
    ∃ e', e.onOrderSent id price quantity = some ((m.sent id price quantity).1,e') ∧
      e'.mapCapacity = e.mapCapacity ∧ Refines e' (m.sent id price quantity).2 := by
  by_cases hid : id ∈ m.orders
  · obtain ⟨order,horder⟩ := Finmap.mem_iff.mp hid
    obtain ⟨i,_,hfind,_⟩ := h.mapFind_live horder
    simp only [OrderRecords.sent,if_pos hid]
    exact ⟨e,by simp [ExecutionManagementSystem.onOrderSent,hfind],rfl,h⟩
  · have hcard := hroom.resolve_left hid
    have hfind := h.mapFind_absent hid hcard
    obtain ⟨e',hinsert,hcap,h'⟩ := h.insert hid hcard
      (rfl : (⟨id,price,quantity,0,.pendingNew⟩ : EMSOrder).orderId = id) (by simp)
    simp only [OrderRecords.sent,if_neg hid]
    exact ⟨e',by simp [ExecutionManagementSystem.onOrderSent,hfind,hinsert],hcap,h'⟩

theorem Refines.callback (change : EMSOrder → Option EMSOrder)
    (hchange : ∀ o o', change o = some o' → o'.state ≠ .none) :
    ∃ e', e.callback id change = some ((m.callback id change).1,e') ∧
      e'.mapCapacity = e.mapCapacity ∧ Refines e' (m.callback id change).2 := by
  cases hlookup : m.orders.lookup id with
  | none =>
    have hid : id ∉ m.orders := Finmap.lookup_eq_none.mp hlookup
    have hfind := h.mapFind_absent hid (hroom.resolve_left hid)
    simp only [OrderRecords.callback,hlookup,Option.bind_none]
    exact ⟨e,by simp [ExecutionManagementSystem.callback,hfind],rfl,h⟩
  | some order =>
    obtain ⟨i,hi,hfind,hlive⟩ := h.mapFind_live hlookup
    obtain ⟨_,_,hvalue⟩ := table_eq_live_iff.mp hlive
    simp only [OrderRecords.callback,hlookup,Option.bind_some]
    cases hnew : change order with
    | none => exact ⟨e,by simp [ExecutionManagementSystem.callback,hfind,hvalue,hnew],rfl,h⟩
    | some order' =>
      refine ⟨e.setEntry i { e.orderMap i with value := order' },?_,rfl,
        h.overwrite hi hlive (hchange order order' hnew)⟩
      simp [ExecutionManagementSystem.callback,hfind,hvalue,hnew]

theorem Refines.getOrder : e.getOrder id = some (m.orders.lookup id) := by
  cases hlookup : m.orders.lookup id with
  | none =>
    have hid : id ∉ m.orders := Finmap.lookup_eq_none.mp hlookup
    simp [ExecutionManagementSystem.getOrder,h.mapFind_absent hid (hroom.resolve_left hid)]
  | some order =>
    obtain ⟨i,_,hfind,hlive⟩ := h.mapFind_live hlookup
    obtain ⟨_,_,hvalue⟩ := table_eq_live_iff.mp hlive
    simp [ExecutionManagementSystem.getOrder,hfind,hvalue]

end Calls

lemma accept_state {o o' : EMSOrder} (h : o.accept = some o') : o'.state ≠ .none := by
  unfold EMSOrder.accept at h
  split at h
  · contradiction
  · obtain rfl := Option.some.inj h
    simp

lemma execute_state {q : UInt32} {o o' : EMSOrder} (h : o.execute q = some o') : o'.state ≠ .none := by
  unfold EMSOrder.execute at h
  split at h
  · contradiction
  · obtain rfl := Option.some.inj h
    dsimp only
    split <;> simp

theorem Refines.call (h : Refines e m) (c : EmsCall)
    (hroom : c.id ∈ m.orders ∨ m.orders.keys.card < e.mapCapacity) :
    ∃ e', e.call c = some ((m.call c).1,e') ∧ e'.mapCapacity = e.mapCapacity ∧
      Refines e' (m.call c).2 := by
  cases c with
  | sent id price quantity =>
    change id ∈ m.orders ∨ _ at hroom
    obtain ⟨e',he',hcap,h'⟩ := h.onOrderSent hroom price quantity
    exact ⟨e',by rw [ExecutionManagementSystem.call,he']; rfl,hcap,h'⟩
  | accepted id =>
    change id ∈ m.orders ∨ _ at hroom
    obtain ⟨e',he',hcap,h'⟩ := h.callback hroom EMSOrder.accept fun _ _ => accept_state
    exact ⟨e',by rw [ExecutionManagementSystem.call,onOrderAccepted,he']; rfl,hcap,h'⟩
  | rejected id =>
    change id ∈ m.orders ∨ _ at hroom
    obtain ⟨e',he',hcap,h'⟩ := h.callback hroom EMSOrder.reject (by simp [EMSOrder.reject])
    exact ⟨e',by rw [ExecutionManagementSystem.call,onOrderRejected,he']; rfl,hcap,h'⟩
  | executed id fillQuantity fillPrice =>
    change id ∈ m.orders ∨ _ at hroom
    obtain ⟨e',he',hcap,h'⟩ := h.callback hroom (EMSOrder.execute fillQuantity) fun _ _ => execute_state
    exact ⟨e',by rw [ExecutionManagementSystem.call,onOrderExecuted,he']; rfl,hcap,h'⟩
  | canceled id =>
    change id ∈ m.orders ∨ _ at hroom
    obtain ⟨e',he',hcap,h'⟩ := h.callback hroom EMSOrder.cancel (by simp [EMSOrder.cancel])
    exact ⟨e',by rw [ExecutionManagementSystem.call,onOrderCanceled,he']; rfl,hcap,h'⟩
  | getOrderState id =>
    change id ∈ m.orders ∨ _ at hroom
    refine ⟨e,?_,rfl,h⟩
    rw [ExecutionManagementSystem.call,ExecutionManagementSystem.getOrderState,h.getOrder hroom,
      OrderRecords.call]
    cases m.orders.lookup id <;> rfl
  | getOrder id =>
    change id ∈ m.orders ∨ _ at hroom
    refine ⟨e,?_,rfl,h⟩
    rw [ExecutionManagementSystem.call,h.getOrder hroom]
    rfl

theorem Refines.call_diverges (h : Refines e m) (c : EmsCall)
    (hfull : ¬ (c.id ∈ m.orders ∨ m.orders.keys.card < e.mapCapacity)) : e.call c = none := by
  have hnone : e.mapFind c.id = none :=
    h.mapFind_diverges (fun hid => hfull (.inl hid)) (Nat.le_of_not_lt fun hlt => hfull (.inr hlt))
  cases c <;> simp only [EmsCall.id] at hnone <;>
    simp [ExecutionManagementSystem.call,ExecutionManagementSystem.onOrderSent,onOrderAccepted,
      onOrderRejected,onOrderExecuted,onOrderCanceled,ExecutionManagementSystem.callback,
      ExecutionManagementSystem.getOrderState,ExecutionManagementSystem.getOrder,hnone]

end ExecutionManagementSystem
end TickToTrade
