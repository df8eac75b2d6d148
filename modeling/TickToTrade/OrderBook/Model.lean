import TickToTrade.Library.ProbeLoop
import Mathlib.Logic.Function.Basic

/-! The limit order book at pointer level: the pool of orders with its free list, the price
levels as intrusive lists, and the flat hash map with tombstones. Pool slots are natural-number
indices and a null pointer is `none`; the mapped regions are functions on indices, zeroed as
`mmap` leaves them. A call whose probe loop does not end has no result. -/
namespace TickToTrade
open Probing

inductive Side
  | buy
  | sell
  deriving DecidableEq, Repr

/-- A pool slot. The `next` field links the free list or the price level the slot is on. -/
structure Order where
  id : UInt64
  price : UInt64
  quantity : UInt64
  side : Side
  prev : Option ℕ
  next : Option ℕ
  deriving DecidableEq, Repr

structure PriceLevel where
  head : Option ℕ
  tail : Option ℕ
  totalVolume : UInt64
  deriving DecidableEq, Repr

/-- The pointer stored in a table entry: null, the tombstone address, or a pool slot. -/
inductive MapValue
  | null
  | tombstone
  | order (slot : ℕ)
  deriving DecidableEq, Repr

structure HashEntry where
  key : UInt64
  value : MapValue
  deriving DecidableEq, Repr

structure LimitOrderBook where
  maxOrders : ℕ
  maxPrice : ℕ
  bids : ℕ → PriceLevel
  asks : ℕ → PriceLevel
  orderPool : ℕ → Order
  freeListHead : Option ℕ
  orderMap : ℕ → HashEntry
  mapCapacity : ℕ

namespace LimitOrderBook

/-- The free-list loop of `init_memory_pool` after its first `n` iterations. -/
def initFreeList : ℕ → (ℕ → Order) × Option ℕ
  | 0 => (fun _ => ⟨0,0,0,.buy,none,none⟩,none)
  | n+1 =>
    let (pool,head) := initFreeList n
    (Function.update pool n { pool n with next := head },some n)

/-- The constructor; the table has two entries per order. The arrays are assumed to fit the address
space: their sizes in bytes do not overflow `size_t`. -/
def init (maxOrders maxPrice : ℕ) : LimitOrderBook where
  maxOrders := maxOrders
  maxPrice := maxPrice
  bids := fun _ => ⟨none,none,0⟩
  asks := fun _ => ⟨none,none,0⟩
  orderPool := (initFreeList maxOrders).1
  freeListHead := (initFreeList maxOrders).2
  orderMap := fun _ => ⟨0,.null⟩
  mapCapacity := maxOrders * 2

/-- `&bids_[price]` or `&asks_[price]`, by side. -/
def level (b : LimitOrderBook) (side : Side) (price : UInt64) : PriceLevel :=
  match side with
  | .buy => b.bids price.toNat
  | .sell => b.asks price.toNat

def setLevel (b : LimitOrderBook) (side : Side) (price : UInt64) (l : PriceLevel) : LimitOrderBook :=
  match side with
  | .buy => { b with bids := Function.update b.bids price.toNat l }
  | .sell => { b with asks := Function.update b.asks price.toNat l }

def setOrder (b : LimitOrderBook) (slot : ℕ) (o : Order) : LimitOrderBook :=
  { b with orderPool := Function.update b.orderPool slot o }

/-- `slot->prev = q` and `slot->next = q`. -/
def setPrev (b : LimitOrderBook) (slot : ℕ) (q : Option ℕ) : LimitOrderBook :=
  b.setOrder slot { b.orderPool slot with prev := q }

def setNext (b : LimitOrderBook) (slot : ℕ) (q : Option ℕ) : LimitOrderBook :=
  b.setOrder slot { b.orderPool slot with next := q }

def setEntry (b : LimitOrderBook) (index : ℕ) (e : HashEntry) : LimitOrderBook :=
  { b with orderMap := Function.update b.orderMap index e }

/-- Pop the free list; `none` when the pool is exhausted. -/
def allocateOrder (b : LimitOrderBook) : Option (ℕ × LimitOrderBook) :=
  match b.freeListHead with
  | none => none
  | some order => some (order,{ b with freeListHead := (b.orderPool order).next })

def deallocateOrder (b : LimitOrderBook) (order : ℕ) : LimitOrderBook :=
  { b.setNext order b.freeListHead with freeListHead := some order }

/-- One iteration of `map_insert` at `index`. -/
def insertBody (b : LimitOrderBook) (id : UInt64) (order index : ℕ) : Option LimitOrderBook :=
  if (b.orderMap index).value = .null ∨ (b.orderMap index).value = .tombstone then
    some (b.setEntry index ⟨id,.order order⟩)
  else if (b.orderMap index).key = id then
    some (b.setEntry index { b.orderMap index with value := .order order })
  else none

def mapInsert (b : LimitOrderBook) (id : UInt64) (order : ℕ) : Option LimitOrderBook :=
  probeLoop b.mapCapacity (b.insertBody id order) b.mapCapacity (id.toNat % b.mapCapacity)

/-- One iteration of `map_find` at `index`; a null entry ends the search without a result. -/
def findBody (b : LimitOrderBook) (id : UInt64) (index : ℕ) : Option (Option ℕ) :=
  match (b.orderMap index).value with
  | .null => some none
  | .tombstone => none
  | .order slot => if (b.orderMap index).key = id then some (some slot) else none

def mapFind (b : LimitOrderBook) (id : UInt64) : Option (Option ℕ) :=
  probeLoop b.mapCapacity (b.findBody id) b.mapCapacity (id.toNat % b.mapCapacity)

/-- One iteration of `map_erase` at `index`; the key of a deleted entry stays behind. -/
def eraseBody (b : LimitOrderBook) (id : UInt64) (index : ℕ) : Option LimitOrderBook :=
  match (b.orderMap index).value with
  | .null => some b
  | .tombstone => none
  | .order _ =>
    if (b.orderMap index).key = id then
      some (b.setEntry index { b.orderMap index with value := .tombstone })
    else none

def mapErase (b : LimitOrderBook) (id : UInt64) : Option LimitOrderBook :=
  probeLoop b.mapCapacity (b.eraseBody id) b.mapCapacity (id.toNat % b.mapCapacity)

/-- Append the order at the tail of its level. -/
def insertOrder (b : LimitOrderBook) (order : ℕ) : LimitOrderBook :=
  let o := b.orderPool order
  let l := b.level o.side o.price
  let b := (b.setPrev order l.tail).setNext order none
  match l.tail with
  | some t => (b.setNext t (some order)).setLevel o.side o.price
      { l with tail := some order, totalVolume := l.totalVolume + o.quantity }
  | none => b.setLevel o.side o.price
      { head := some order, tail := some order, totalVolume := l.totalVolume + o.quantity }

/-- First branch of `remove_order`: `order->prev->next`, or the head, skips the order. -/
def unlinkNext (b : LimitOrderBook) (order : ℕ) : LimitOrderBook :=
  let o := b.orderPool order
  match o.prev with
  | some p => b.setNext p o.next
  | none => b.setLevel o.side o.price { b.level o.side o.price with head := o.next }

/-- Second branch of `remove_order`: `order->next->prev`, or the tail, skips the order. -/
def unlinkPrev (b : LimitOrderBook) (order : ℕ) : LimitOrderBook :=
  let o := b.orderPool order
  match o.next with
  | some n => b.setPrev n o.prev
  | none => b.setLevel o.side o.price { b.level o.side o.price with tail := o.prev }

/-- Take the order out of its level. Its own pointers are left as they were. -/
def removeOrder (b : LimitOrderBook) (order : ℕ) : LimitOrderBook :=
  let b := (b.unlinkNext order).unlinkPrev order
  let o := b.orderPool order
  let l := b.level o.side o.price
  b.setLevel o.side o.price { l with totalVolume := l.totalVolume - o.quantity }

def add (b : LimitOrderBook) (id : UInt64) (side : Side) (price quantity : UInt64) :
    Option (Bool × LimitOrderBook) :=
  if b.maxPrice ≤ price.toNat then some (false,b)
  else do
    match ← b.mapFind id with
    | some _ => some (false,b)
    | none =>
      match b.allocateOrder with
      | none => some (false,b)
      | some (order,b) =>
        let b := b.setOrder order
          { b.orderPool order with id := id, side := side, price := price, quantity := quantity }
        let b ← (b.insertOrder order).mapInsert id order
        some (true,b)

def cancel (b : LimitOrderBook) (id : UInt64) : Option (Bool × LimitOrderBook) := do
  match ← b.mapFind id with
  | none => some (false,b)
  | some order =>
    let b ← (b.removeOrder order).mapErase id
    some (true,b.deallocateOrder order)

def modify (b : LimitOrderBook) (id newQuantity : UInt64) : Option (Bool × LimitOrderBook) := do
  match ← b.mapFind id with
  | none => some (false,b)
  | some order =>
    if newQuantity = 0 then b.cancel id
    else
      let o := b.orderPool order
      if o.quantity < newQuantity then
        let b := b.removeOrder order
        let b := b.setOrder order { b.orderPool order with quantity := newQuantity }
        some (true,b.insertOrder order)
      else
        let l := b.level o.side o.price
        let b := b.setLevel o.side o.price
          { l with totalVolume := l.totalVolume - (o.quantity - newQuantity) }
        some (true,b.setOrder order { o with quantity := newQuantity })

def getVolumeAtPrice (b : LimitOrderBook) (side : Side) (price : UInt64) : UInt64 :=
  if b.maxPrice ≤ price.toNat then 0 else (b.level side price).totalVolume

/-- A pointer to the live order, `some none` for null; the caller reads the pool through it. -/
def getOrder (b : LimitOrderBook) (id : UInt64) : Option (Option ℕ) := b.mapFind id

end LimitOrderBook

/-- The mutating calls of the book's interface. -/
inductive BookCall
  | add (id : UInt64) (side : Side) (price quantity : UInt64)
  | cancel (id : UInt64)
  | modify (id newQuantity : UInt64)
  deriving DecidableEq, Repr

def LimitOrderBook.call (b : LimitOrderBook) : BookCall → Option (Bool × LimitOrderBook)
  | .add id side price quantity => b.add id side price quantity
  | .cancel id => b.cancel id
  | .modify id newQuantity => b.modify id newQuantity

end TickToTrade
