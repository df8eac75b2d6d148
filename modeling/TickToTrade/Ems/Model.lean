import TickToTrade.Library.ProbeLoop
import Mathlib.Logic.Function.Basic

/-! The execution management system at table level: a flat array of entries, found by linear
probing. An entry is free while its key is zero and its state `NONE`, which is how `mmap` leaves
it; nothing ever frees an entry again. A call whose probe loop does not end has no result. -/
namespace TickToTrade
open Probing

inductive OrderState
  | none
  | pendingNew
  | new
  | partiallyFilled
  | filled
  | canceled
  | rejected
  deriving DecidableEq, Repr

structure EMSOrder where
  orderId : UInt64
  price : UInt32
  originalQuantity : UInt32
  executedQuantity : UInt32
  state : OrderState
  deriving DecidableEq, Repr

namespace ExecutionManagementSystem

structure HashEntry where
  key : UInt64
  value : EMSOrder
  deriving DecidableEq, Repr

end ExecutionManagementSystem

structure ExecutionManagementSystem where
  maxOrders : ℕ
  orderMap : ℕ → ExecutionManagementSystem.HashEntry
  mapCapacity : ℕ

namespace ExecutionManagementSystem

/-- The constructor: two zeroed entries per order, whose size in bytes is assumed not to overflow
`size_t`. -/
def init (maxOrders : ℕ) : ExecutionManagementSystem where
  maxOrders := maxOrders
  orderMap := fun _ => ⟨0,⟨0,0,0,0,.none⟩⟩
  mapCapacity := maxOrders * 2

def setEntry (e : ExecutionManagementSystem) (index : ℕ) (entry : HashEntry) : ExecutionManagementSystem :=
  { e with orderMap := Function.update e.orderMap index entry }

/-- The test for a free entry in both probe loops. -/
def HashEntry.Free (entry : HashEntry) : Prop := entry.key = 0 ∧ entry.value.state = .none

instance (entry : HashEntry) : Decidable entry.Free := inferInstanceAs (Decidable (_ ∧ _))

/-- One iteration of `map_insert` at `index`. -/
def insertBody (e : ExecutionManagementSystem) (order : EMSOrder) (index : ℕ) :
    Option ExecutionManagementSystem :=
  if (e.orderMap index).Free then some (e.setEntry index ⟨order.orderId,order⟩)
  else if (e.orderMap index).key = order.orderId then
    some (e.setEntry index { e.orderMap index with value := order })
  else none

def mapInsert (e : ExecutionManagementSystem) (order : EMSOrder) : Option ExecutionManagementSystem :=
  probeLoop e.mapCapacity (e.insertBody order) e.mapCapacity (order.orderId.toNat % e.mapCapacity)

/-- One iteration of `map_find` at `index`; the result points to the entry's value. -/
def findBody (e : ExecutionManagementSystem) (id : UInt64) (index : ℕ) : Option (Option ℕ) :=
  if (e.orderMap index).Free then some none
  else if (e.orderMap index).key = id then some (some index)
  else none

def mapFind (e : ExecutionManagementSystem) (id : UInt64) : Option (Option ℕ) :=
  probeLoop e.mapCapacity (e.findBody id) e.mapCapacity (id.toNat % e.mapCapacity)

def onOrderSent (e : ExecutionManagementSystem) (id : UInt64) (price quantity : UInt32) :
    Option (Bool × ExecutionManagementSystem) := do
  match ← e.mapFind id with
  | some _ => some (false,e)
  | none =>
    let e ← e.mapInsert ⟨id,price,quantity,0,.pendingNew⟩
    some (true,e)

/-- The callbacks for messages from the exchange: find the order and change it in place. They
fail on an unknown id and where `change` refuses the order's state. -/
def callback (e : ExecutionManagementSystem) (id : UInt64) (change : EMSOrder → Option EMSOrder) :
    Option (Bool × ExecutionManagementSystem) := do
  match ← e.mapFind id with
  | none => some (false,e)
  | some order =>
    match change (e.orderMap order).value with
    | none => some (false,e)
    | some value => some (true,e.setEntry order { e.orderMap order with value := value })

end ExecutionManagementSystem

namespace EMSOrder

/-- Only a pending order is accepted. -/
def accept (order : EMSOrder) : Option EMSOrder :=
  if order.state ≠ .pendingNew then none else some { order with state := .new }

def reject (order : EMSOrder) : Option EMSOrder := some { order with state := .rejected }

/-- The executed quantity is a 32-bit sum; dead orders take no fill. -/
def execute (fillQuantity : UInt32) (order : EMSOrder) : Option EMSOrder :=
  if order.state = .canceled ∨ order.state = .rejected then none
  else
    let executed := order.executedQuantity + fillQuantity
    some { order with
      executedQuantity := executed
      state := if order.originalQuantity ≤ executed then .filled else .partiallyFilled }

def cancel (order : EMSOrder) : Option EMSOrder := some { order with state := .canceled }

/-- The states in which the exchange may still act on the order. -/
def Open (order : EMSOrder) : Prop :=
  order.state = .pendingNew ∨ order.state = .new ∨ order.state = .partiallyFilled

instance (order : EMSOrder) : Decidable order.Open := inferInstanceAs (Decidable (_ ∨ _ ∨ _))

end EMSOrder

namespace ExecutionManagementSystem

def onOrderAccepted (e : ExecutionManagementSystem) (id : UInt64) := e.callback id EMSOrder.accept

def onOrderRejected (e : ExecutionManagementSystem) (id : UInt64) := e.callback id EMSOrder.reject

/-- The fill price is not used. -/
def onOrderExecuted (e : ExecutionManagementSystem) (id : UInt64) (fillQuantity _fillPrice : UInt32) :=
  e.callback id (EMSOrder.execute fillQuantity)

def onOrderCanceled (e : ExecutionManagementSystem) (id : UInt64) := e.callback id EMSOrder.cancel

def getOrder (e : ExecutionManagementSystem) (id : UInt64) : Option (Option EMSOrder) := do
  let found ← e.mapFind id
  some (found.map fun order => (e.orderMap order).value)

def getOrderState (e : ExecutionManagementSystem) (id : UInt64) : Option OrderState := do
  match ← e.getOrder id with
  | none => some .none
  | some order => some order.state

end ExecutionManagementSystem

/-- The interface of the system. -/
inductive EmsCall
  | sent (id : UInt64) (price quantity : UInt32)
  | accepted (id : UInt64)
  | rejected (id : UInt64)
  | executed (id : UInt64) (fillQuantity fillPrice : UInt32)
  | canceled (id : UInt64)
  | getOrderState (id : UInt64)
  | getOrder (id : UInt64)
  deriving DecidableEq, Repr

inductive EmsAnswer
  | done (ok : Bool)
  | state (s : OrderState)
  | order (found : Option EMSOrder)
  deriving DecidableEq, Repr

def EmsCall.id : EmsCall → UInt64
  | .sent id _ _ => id
  | .accepted id => id
  | .rejected id => id
  | .executed id _ _ => id
  | .canceled id => id
  | .getOrderState id => id
  | .getOrder id => id

def ExecutionManagementSystem.call (e : ExecutionManagementSystem) :
    EmsCall → Option (EmsAnswer × ExecutionManagementSystem)
  | .sent id price quantity => (e.onOrderSent id price quantity).map (Prod.map .done fun e => e)
  | .accepted id => (e.onOrderAccepted id).map (Prod.map .done fun e => e)
  | .rejected id => (e.onOrderRejected id).map (Prod.map .done fun e => e)
  | .executed id fillQuantity fillPrice =>
    (e.onOrderExecuted id fillQuantity fillPrice).map (Prod.map .done fun e => e)
  | .canceled id => (e.onOrderCanceled id).map (Prod.map .done fun e => e)
  | .getOrderState id => (e.getOrderState id).map fun s => (.state s,e)
  | .getOrder id => (e.getOrder id).map fun found => (.order found,e)

end TickToTrade
