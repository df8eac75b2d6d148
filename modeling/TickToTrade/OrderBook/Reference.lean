import TickToTrade.OrderBook.Pool
import Mathlib.Data.Finmap

/-! The book as its users see it: a finite map from live ids to their terms and, for every side
and price, the queue of live ids in time priority. No pointers, slots or hash table. -/
namespace TickToTrade

structure ReferenceBook where
  maxOrders : ℕ
  maxPrice : ℕ
  orders : Finmap (fun _ : UInt64 => Terms)
  queue : Side → UInt64 → List UInt64

namespace ReferenceBook

def init (maxOrders maxPrice : ℕ) : ReferenceBook := ⟨maxOrders,maxPrice,∅,fun _ _ => []⟩

/-- Refused when the price is out of range, the id is live, or `maxOrders` orders are live. -/
def add (r : ReferenceBook) (id : UInt64) (side : Side) (price quantity : UInt64) :
    Bool × ReferenceBook :=
  if r.maxPrice ≤ price.toNat ∨ id ∈ r.orders ∨ r.orders.keys.card = r.maxOrders then (false,r)
  else (true,{ r with
    orders := r.orders.insert id ⟨side,price,quantity⟩
    queue := setAt r.queue side price (r.queue side price ++ [id]) })

def cancel (r : ReferenceBook) (id : UInt64) : Bool × ReferenceBook :=
  match r.orders.lookup id with
  | none => (false,r)
  | some t => (true,{ r with
      orders := r.orders.erase id
      queue := setAt r.queue t.side t.price ((r.queue t.side t.price).erase id) })

/-- Zero deletes; a larger quantity goes to the tail; a smaller or equal one changes in place. -/
def modify (r : ReferenceBook) (id newQuantity : UInt64) : Bool × ReferenceBook :=
  match r.orders.lookup id with
  | none => (false,r)
  | some t =>
    if newQuantity = 0 then r.cancel id
    else if t.quantity < newQuantity then
      (true,{ r with
        orders := r.orders.insert id { t with quantity := newQuantity }
        queue := setAt r.queue t.side t.price ((r.queue t.side t.price).erase id ++ [id]) })
    else (true,{ r with orders := r.orders.insert id { t with quantity := newQuantity } })

/-- The quantity of a live order, zero for an id that is not live. -/
def quantity (r : ReferenceBook) (id : UInt64) : UInt64 := ((r.orders.lookup id).map Terms.quantity).getD 0

def call (r : ReferenceBook) : BookCall → Bool × ReferenceBook
  | .add id side price quantity => r.add id side price quantity
  | .cancel id => r.cancel id
  | .modify id newQuantity => r.modify id newQuantity

lemma cancel_dimensions (r : ReferenceBook) (id : UInt64) :
    (r.cancel id).2.maxOrders = r.maxOrders ∧ (r.cancel id).2.maxPrice = r.maxPrice := by
  unfold cancel
  split <;> exact ⟨rfl,rfl⟩

lemma call_dimensions (r : ReferenceBook) (c : BookCall) :
    (r.call c).2.maxOrders = r.maxOrders ∧ (r.call c).2.maxPrice = r.maxPrice := by
  cases c with
  | add id side price quantity =>
    simp only [call,add]
    split <;> exact ⟨rfl,rfl⟩
  | cancel id => exact r.cancel_dimensions id
  | modify id q =>
    simp only [call,modify]
    split
    · exact ⟨rfl,rfl⟩
    · split
      · exact r.cancel_dimensions id
      · split <;> exact ⟨rfl,rfl⟩

section Lookup
variable (r : ReferenceBook) (id k : UInt64)

/-- The condition under which `add` is refused. -/
def Refuses (price : UInt64) : Prop :=
  r.maxPrice ≤ price.toNat ∨ id ∈ r.orders ∨ r.orders.keys.card = r.maxOrders

theorem lookup_add {price : UInt64} (h : ¬ r.Refuses id price) (side : Side)
    (quantity : UInt64) : (r.add id side price quantity).2.orders.lookup k =
      if k = id then some ⟨side,price,quantity⟩ else r.orders.lookup k := by
  unfold Refuses at h
  rw [add,if_neg h]
  split
  · rename_i hk
    rw [hk,Finmap.lookup_insert]
  · rename_i hk
    exact Finmap.lookup_insert_of_ne _ hk

theorem lookup_cancel : (r.cancel id).2.orders.lookup k = if k = id then none else r.orders.lookup k := by
  unfold cancel
  split
  · rename_i hnone
    split
    · rename_i hk
      rw [hk,hnone]
    · rfl
  · split
    · rename_i hk
      rw [hk,Finmap.lookup_erase]
    · rename_i hk
      exact Finmap.lookup_erase_ne hk

theorem lookup_modify (q : UInt64) : (r.modify id q).2.orders.lookup k =
    if k = id then
      (r.orders.lookup id).bind fun t => if q = 0 then none else some { t with quantity := q }
    else r.orders.lookup k := by
  unfold modify
  cases hsome : r.orders.lookup id with
  | none =>
    by_cases hk : k = id
    · subst hk
      simp [hsome]
    · simp [hk]
  | some t =>
    by_cases hzero : q = 0
    · simp [hzero,lookup_cancel]
    · have hinsert : (r.orders.insert id { t with quantity := q }).lookup k =
          if k = id then some { t with quantity := q } else r.orders.lookup k := by
        split
        · rename_i hk
          rw [hk,Finmap.lookup_insert]
        · rename_i hk
          exact Finmap.lookup_insert_of_ne _ hk
      simp only [hzero,if_false,Option.bind_some]
      split <;> exact hinsert

end Lookup

end ReferenceBook
end TickToTrade
