import TickToTrade.OrderBook.Pool
import TickToTrade.OrderBook.Table

/-! The representation invariant of the book and what each call does to it. The free list, the
price levels and the order map share the pool; `free` and `queue` name where its slots are. -/
namespace TickToTrade.LimitOrderBook
open Linked Probing

/-- Pool, levels and order map agree: the live table entries are the slots on levels, under their ids. -/
structure Inv (b : LimitOrderBook) (free : List ℕ) (queue : Side → UInt64 → List ℕ) : Prop where
  maxOrders_pos : 0 < b.maxOrders
  mapCapacity_eq : b.mapCapacity = b.maxOrders * 2
  pool : Pool b free none queue
  table_wf : WellFormed b.mapCapacity UInt64.toNat b.table
  table_maps : ∀ k i, Maps b.mapCapacity b.table k i ↔ OnLevel queue i ∧ (b.orderPool i).id = k

/-- The call leaves the dimensions and every slot but `x` as they were, up to list pointers. -/
structure KeepsOthers (b b' : LimitOrderBook) (x : ℕ) : Prop where
  maxOrders : b'.maxOrders = b.maxOrders
  maxPrice : b'.maxPrice = b.maxPrice
  mapCapacity : b'.mapCapacity = b.mapCapacity
  id : ∀ i, i ≠ x → (b'.orderPool i).id = (b.orderPool i).id
  terms : ∀ i, i ≠ x → (b'.orderPool i).terms = (b.orderPool i).terms

lemma SameExcept.keepsOthers {side : Side} {price : UInt64} {b b' : LimitOrderBook}
    (h : SameExcept side price b b') (x : ℕ) : KeepsOthers b b' x :=
  ⟨h.maxOrders,h.maxPrice,h.mapCapacity,fun i _ => h.id i,fun i _ => h.terms i⟩

lemma keepsOthers_setOrder (b : LimitOrderBook) (x : ℕ) (o : Order) :
    KeepsOthers b (b.setOrder x o) x :=
  ⟨rfl,rfl,rfl,fun i hi => by simp [hi],fun i hi => by simp [hi]⟩

lemma KeepsOthers.trans {b₁ b₂ b₃ : LimitOrderBook} {x : ℕ} (h : KeepsOthers b₁ b₂ x)
    (h' : KeepsOthers b₂ b₃ x) : KeepsOthers b₁ b₃ x :=
  ⟨h'.maxOrders.trans h.maxOrders,h'.maxPrice.trans h.maxPrice,h'.mapCapacity.trans h.mapCapacity,
    fun i hi => (h'.id i hi).trans (h.id i hi),fun i hi => (h'.terms i hi).trans (h.terms i hi)⟩

lemma table_congr {b b' : LimitOrderBook} (h : b'.orderMap = b.orderMap) : b'.table = b.table := by
  unfold table
  rw [h]

theorem inv_init {maxOrders : ℕ} (h : 1 ≤ maxOrders) (maxPrice : ℕ) :
    Inv (init maxOrders maxPrice) (List.range maxOrders).reverse (fun _ _ => []) where
  maxOrders_pos := h
  mapCapacity_eq := rfl
  pool := pool_init maxOrders maxPrice
  table_wf := wellFormed_empty
  table_maps k i := by simp [Maps,OnLevel,table,init,HashEntry.slot]

variable {b b' : LimitOrderBook} {free : List ℕ} {queue : Side → UInt64 → List ℕ} {id : UInt64} {x : ℕ}

section Queries
variable (h : Inv b free queue)
include h

lemma Inv.mapCapacity_pos : 0 < b.mapCapacity := by
  rw [h.mapCapacity_eq]
  have := h.maxOrders_pos
  omega

theorem Inv.mapFind_iff : b.mapFind id = some (some x) ↔ OnLevel queue x ∧ (b.orderPool x).id = id := by
  rw [mapFind_eq_some_some_iff h.table_wf h.mapCapacity_pos,h.table_maps]

/-- The id is live: a slot on a level carries it. -/
theorem Inv.mapFind_isSome_iff : (b.mapFind id).isSome ↔
    (∃ i, OnLevel queue i ∧ (b.orderPool i).id = id) ∨ ∃ i < b.mapCapacity, b.table i = .empty := by
  rw [LimitOrderBook.mapFind_isSome_iff h.table_wf h.mapCapacity_pos]
  simp only [h.table_maps]

theorem Inv.absent_of_mapFind (hfind : b.mapFind id = some none) (hx : OnLevel queue x) :
    (b.orderPool x).id ≠ id := by
  intro hid
  rw [h.mapFind_iff.mpr ⟨hx,hid⟩] at hfind
  simp at hfind

theorem Inv.exists_empty_of_mapFind (hfind : b.mapFind id = some none) :
    ∃ i < b.mapCapacity, b.table i = .empty := by
  have hsome : (b.mapFind id).isSome := by simp [hfind]
  rcases h.mapFind_isSome_iff.mp hsome with ⟨i,hi,hid⟩ | hempty
  · exact absurd hid (h.absent_of_mapFind hfind hi)
  · exact hempty

theorem Inv.id_injective {i j : ℕ} (hi : OnLevel queue i) (hj : OnLevel queue j)
    (hid : (b.orderPool i).id = (b.orderPool j).id) : i = j := by
  have h₁ := h.mapFind_iff.mpr ⟨hi,hid⟩
  have h₂ := h.mapFind_iff.mpr ⟨hj,rfl⟩
  simpa using h₁.symm.trans h₂

lemma Inv.freeListHead_eq : b.freeListHead = free.head? := h.pool.free_walks.start_eq

end Queries

end TickToTrade.LimitOrderBook
