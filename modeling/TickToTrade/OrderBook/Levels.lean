import TickToTrade.OrderBook.Model
import TickToTrade.Library.Linked

/-! The price levels as doubly linked lists over the pool: appending and removing an order are
the general list operations, and neither touches anything but pointers and the level itself. -/
namespace TickToTrade
open Linked

/-- The resting terms of an order: what the book promises about it besides its id. -/
structure Terms where
  side : Side
  price : UInt64
  quantity : UInt64
  deriving DecidableEq, Repr

def Order.terms (o : Order) : Terms := ⟨o.side,o.price,o.quantity⟩

namespace LimitOrderBook

section Setters
variable (b : LimitOrderBook) (side side' : Side) (price price' : UInt64) (l : PriceLevel)
  (slot : ℕ) (o : Order)

@[simp] lemma setLevel_orderPool : (b.setLevel side price l).orderPool = b.orderPool := by
  cases side <;> rfl
@[simp] lemma setLevel_orderMap : (b.setLevel side price l).orderMap = b.orderMap := by
  cases side <;> rfl
@[simp] lemma setLevel_freeListHead : (b.setLevel side price l).freeListHead = b.freeListHead := by
  cases side <;> rfl
@[simp] lemma setLevel_maxOrders : (b.setLevel side price l).maxOrders = b.maxOrders := by
  cases side <;> rfl
@[simp] lemma setLevel_maxPrice : (b.setLevel side price l).maxPrice = b.maxPrice := by
  cases side <;> rfl
@[simp] lemma setLevel_mapCapacity : (b.setLevel side price l).mapCapacity = b.mapCapacity := by
  cases side <;> rfl

@[simp] lemma level_setLevel_self : (b.setLevel side price l).level side price = l := by
  cases side <;> simp [level,setLevel]

lemma level_setLevel_of_ne (h : ¬ (side' = side ∧ price' = price)) :
    (b.setLevel side price l).level side' price' = b.level side' price' := by
  by_cases hs : side' = side
  · have hp : price'.toNat ≠ price.toNat := fun hp => h ⟨hs,UInt64.toNat_inj.mp hp⟩
    subst hs
    cases side' <;> simp [level,setLevel,hp]
  · cases side <;> cases side' <;> simp_all [level,setLevel]

@[simp] lemma setOrder_orderMap : (b.setOrder slot o).orderMap = b.orderMap := rfl
@[simp] lemma setOrder_freeListHead : (b.setOrder slot o).freeListHead = b.freeListHead := rfl
@[simp] lemma setOrder_maxOrders : (b.setOrder slot o).maxOrders = b.maxOrders := rfl
@[simp] lemma setOrder_maxPrice : (b.setOrder slot o).maxPrice = b.maxPrice := rfl
@[simp] lemma setOrder_mapCapacity : (b.setOrder slot o).mapCapacity = b.mapCapacity := rfl
@[simp] lemma setOrder_orderPool :
    (b.setOrder slot o).orderPool = Function.update b.orderPool slot o := rfl
@[simp] lemma level_setOrder : (b.setOrder slot o).level side price = b.level side price := by
  cases side <;> rfl

end Setters

/-- Two books that differ at most in pool pointers and in one price level. -/
structure SameExcept (side : Side) (price : UInt64) (b b' : LimitOrderBook) : Prop where
  maxOrders : b'.maxOrders = b.maxOrders
  maxPrice : b'.maxPrice = b.maxPrice
  mapCapacity : b'.mapCapacity = b.mapCapacity
  orderMap : b'.orderMap = b.orderMap
  freeListHead : b'.freeListHead = b.freeListHead
  id : ∀ i, (b'.orderPool i).id = (b.orderPool i).id
  terms : ∀ i, (b'.orderPool i).terms = (b.orderPool i).terms
  level : ∀ s p, ¬ (s = side ∧ p = price) → b'.level s p = b.level s p

theorem SameExcept.trans {side : Side} {price : UInt64} {b₁ b₂ b₃ : LimitOrderBook}
    (h : SameExcept side price b₁ b₂) (h' : SameExcept side price b₂ b₃) :
    SameExcept side price b₁ b₃ where
  maxOrders := h'.maxOrders.trans h.maxOrders
  maxPrice := h'.maxPrice.trans h.maxPrice
  mapCapacity := h'.mapCapacity.trans h.mapCapacity
  orderMap := h'.orderMap.trans h.orderMap
  freeListHead := h'.freeListHead.trans h.freeListHead
  id i := (h'.id i).trans (h.id i)
  terms i := (h'.terms i).trans (h.terms i)
  level s p hsp := (h'.level s p hsp).trans (h.level s p hsp)

lemma sameExcept_setLevel (b : LimitOrderBook) (side : Side) (price : UInt64) (l : PriceLevel) :
    SameExcept side price b (b.setLevel side price l) where
  maxOrders := by simp
  maxPrice := by simp
  mapCapacity := by simp
  orderMap := by simp
  freeListHead := by simp
  id := by simp
  terms := by simp
  level s p hsp := level_setLevel_of_ne b side s price p l hsp

/-- Rewriting a slot without changing its id and terms. -/
lemma sameExcept_setOrder (b : LimitOrderBook) (side : Side) (price : UInt64) (slot : ℕ) {o : Order}
    (hid : o.id = (b.orderPool slot).id) (hterms : o.terms = (b.orderPool slot).terms) :
    SameExcept side price b (b.setOrder slot o) where
  maxOrders := rfl
  maxPrice := rfl
  mapCapacity := rfl
  orderMap := rfl
  freeListHead := rfl
  id i := by
    by_cases hi : i = slot
    · simp [hi,hid]
    · simp [hi]
  terms i := by
    by_cases hi : i = slot
    · simp [hi,hterms]
    · simp [hi]
  level s p _ := by simp

lemma sameExcept_setPrev (b : LimitOrderBook) (side : Side) (price : UInt64) (slot : ℕ)
    (q : Option ℕ) : SameExcept side price b (b.setPrev slot q) :=
  sameExcept_setOrder b side price slot rfl rfl

lemma sameExcept_setNext (b : LimitOrderBook) (side : Side) (price : UInt64) (slot : ℕ)
    (q : Option ℕ) : SameExcept side price b (b.setNext slot q) :=
  sameExcept_setOrder b side price slot rfl rfl

/-- The pointer fields of the pool with the two ends of a level. -/
def links (b : LimitOrderBook) (side : Side) (price : UInt64) : Links ℕ where
  next i := (b.orderPool i).next
  prev i := (b.orderPool i).prev
  head := (b.level side price).head
  tail := (b.level side price).tail

lemma links_setPrev (b : LimitOrderBook) (side : Side) (price : UInt64) (slot : ℕ) (q : Option ℕ) :
    (b.setPrev slot q).links side price =
      { b.links side price with prev := Function.update (b.links side price).prev slot q } := by
  simp only [links,setPrev,setOrder_orderPool,level_setOrder,Links.mk.injEq,and_true]
  constructor
  · funext i
    by_cases hi : i = slot <;> simp [hi]
  · funext i
    by_cases hi : i = slot <;> simp [hi]

lemma links_setNext (b : LimitOrderBook) (side : Side) (price : UInt64) (slot : ℕ) (q : Option ℕ) :
    (b.setNext slot q).links side price =
      { b.links side price with next := Function.update (b.links side price).next slot q } := by
  simp only [links,setNext,setOrder_orderPool,level_setOrder,Links.mk.injEq,and_true]
  constructor
  · funext i
    by_cases hi : i = slot <;> simp [hi]
  · funext i
    by_cases hi : i = slot <;> simp [hi]

lemma links_setLevel (b : LimitOrderBook) (side : Side) (price : UInt64) (l : PriceLevel) :
    (b.setLevel side price l).links side price =
      { b.links side price with head := l.head, tail := l.tail } := by
  simp [links]

variable (b : LimitOrderBook) (x : ℕ)

theorem insertOrder_sameExcept :
    SameExcept (b.orderPool x).side (b.orderPool x).price b (b.insertOrder x) := by
  cases ht : (b.level (b.orderPool x).side (b.orderPool x).price).tail with
  | none =>
    simp only [insertOrder,ht]
    exact ((sameExcept_setPrev b _ _ x _).trans (sameExcept_setNext _ _ _ x _)).trans
      (sameExcept_setLevel ..)
  | some t =>
    simp only [insertOrder,ht]
    exact (((sameExcept_setPrev b _ _ x _).trans (sameExcept_setNext _ _ _ x _)).trans
      (sameExcept_setNext _ _ _ t _)).trans (sameExcept_setLevel ..)

theorem links_insertOrder :
    (b.insertOrder x).links (b.orderPool x).side (b.orderPool x).price =
      (b.links (b.orderPool x).side (b.orderPool x).price).pushBack x := by
  cases ht : (b.level (b.orderPool x).side (b.orderPool x).price).tail with
  | none =>
    rw [Links.pushBack_of_none (by exact ht)]
    simp only [insertOrder,ht,links_setLevel,links_setNext,links_setPrev]
  | some t =>
    rw [Links.pushBack_of_some (by exact ht)]
    simp only [insertOrder,ht,links_setLevel,links_setNext,links_setPrev]
    rfl

lemma unlinkNext_sameExcept :
    SameExcept (b.orderPool x).side (b.orderPool x).price b (b.unlinkNext x) := by
  cases hp : (b.orderPool x).prev with
  | none =>
    simp only [unlinkNext,hp]
    exact sameExcept_setLevel ..
  | some p =>
    simp only [unlinkNext,hp]
    exact sameExcept_setNext ..

lemma unlinkPrev_sameExcept :
    SameExcept (b.orderPool x).side (b.orderPool x).price b (b.unlinkPrev x) := by
  cases hn : (b.orderPool x).next with
  | none =>
    simp only [unlinkPrev,hn]
    exact sameExcept_setLevel ..
  | some n =>
    simp only [unlinkPrev,hn]
    exact sameExcept_setPrev ..

lemma links_unlinkNext :
    (b.unlinkNext x).links (b.orderPool x).side (b.orderPool x).price =
      (b.links (b.orderPool x).side (b.orderPool x).price).unlinkNext x := by
  cases hp : (b.orderPool x).prev with
  | none =>
    rw [Links.unlinkNext_of_none (by exact hp)]
    simp only [unlinkNext,hp,links_setLevel]
    rfl
  | some p =>
    rw [Links.unlinkNext_of_some (by exact hp)]
    simp only [unlinkNext,hp,links_setNext]
    rfl

lemma links_unlinkPrev :
    (b.unlinkPrev x).links (b.orderPool x).side (b.orderPool x).price =
      (b.links (b.orderPool x).side (b.orderPool x).price).unlinkPrev x := by
  cases hn : (b.orderPool x).next with
  | none =>
    rw [Links.unlinkPrev_of_none (by exact hn)]
    simp only [unlinkPrev,hn,links_setLevel]
    rfl
  | some n =>
    rw [Links.unlinkPrev_of_some (by exact hn)]
    simp only [unlinkPrev,hn,links_setPrev]
    rfl

lemma side_eq_of_terms {o o' : Order} (h : o.terms = o'.terms) : o.side = o'.side :=
  congrArg Terms.side h

lemma price_eq_of_terms {o o' : Order} (h : o.terms = o'.terms) : o.price = o'.price :=
  congrArg Terms.price h

lemma quantity_eq_of_terms {o o' : Order} (h : o.terms = o'.terms) : o.quantity = o'.quantity :=
  congrArg Terms.quantity h

theorem removeOrder_sameExcept :
    SameExcept (b.orderPool x).side (b.orderPool x).price b (b.removeOrder x) := by
  have h₁ := b.unlinkNext_sameExcept x
  have h₂ := (b.unlinkNext x).unlinkPrev_sameExcept x
  rw [side_eq_of_terms (h₁.terms x),price_eq_of_terms (h₁.terms x)] at h₂
  have h := h₁.trans h₂
  have h₃ := sameExcept_setLevel ((b.unlinkNext x).unlinkPrev x) (b.orderPool x).side (b.orderPool x).price
  simp only [removeOrder,side_eq_of_terms (h.terms x),price_eq_of_terms (h.terms x)]
  exact h.trans (h₃ _)

theorem links_removeOrder :
    (b.removeOrder x).links (b.orderPool x).side (b.orderPool x).price =
      (b.links (b.orderPool x).side (b.orderPool x).price).unlink x := by
  have h₁ := b.unlinkNext_sameExcept x
  have h₂ := (b.unlinkNext x).unlinkPrev_sameExcept x
  have hl := (b.unlinkNext x).links_unlinkPrev x
  rw [side_eq_of_terms (h₁.terms x),price_eq_of_terms (h₁.terms x)] at hl h₂
  rw [Links.unlink,← links_unlinkNext,← hl]
  have h := (h₁.trans h₂).terms x
  -- the last write changes the volume only
  simp [removeOrder,links,side_eq_of_terms h,price_eq_of_terms h]

end LimitOrderBook
end TickToTrade
