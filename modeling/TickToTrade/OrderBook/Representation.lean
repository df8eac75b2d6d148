import TickToTrade.OrderBook.Termination

/-! The representation of the book in its own terms, for every state that a run can reach: where
each pool slot is, what a level looks like, and what the order map holds. -/
namespace TickToTrade.LimitOrderBook
open Linked Probing

/-- `free` is the free list and `queue` the level lists; together they hold each slot once, and
the order map holds the slots on levels under their ids. -/
structure Representation (b : LimitOrderBook) (free : List ℕ) (queue : Side → UInt64 → List ℕ) : Prop where
  free_walks : Walks (fun i => (b.orderPool i).next) b.freeListHead free
  free_nodup : free.Nodup
  queue_nodup : ∀ s p, (queue s p).Nodup
  slot_bound : ∀ i, i ∈ free ∨ OnLevel queue i → i < b.maxOrders
  slot_place : ∀ i < b.maxOrders, (i ∈ free ∧ ¬ OnLevel queue i) ∨
    (i ∉ free ∧ ∃! level : Side × UInt64, i ∈ queue level.1 level.2)
  level_walks : ∀ s p, p.toNat < b.maxPrice →
    Walks (fun i => (b.orderPool i).next) (b.level s p).head (queue s p) ∧
    Walks (fun i => (b.orderPool i).prev) (b.level s p).tail (queue s p).reverse
  level_above : ∀ s p, b.maxPrice ≤ p.toNat → queue s p = []
  head_prev : ∀ s p, p.toNat < b.maxPrice → ∀ x, (b.level s p).head = some x → (b.orderPool x).prev = none
  tail_next : ∀ s p, p.toNat < b.maxPrice → ∀ x, (b.level s p).tail = some x → (b.orderPool x).next = none
  next_iff_prev : ∀ s p, ∀ x ∈ queue s p, ∀ y ∈ queue s p,
    (b.orderPool x).next = some y ↔ (b.orderPool y).prev = some x
  head_none_iff : ∀ s p, p.toNat < b.maxPrice → ((b.level s p).head = none ↔ (b.level s p).tail = none)
  level_fields : ∀ s p, ∀ x ∈ queue s p, (b.orderPool x).side = s ∧ (b.orderPool x).price = p
  entry_slot : ∀ j < b.mapCapacity, ∀ x, (b.orderMap j).value = .order x →
    OnLevel queue x ∧ (b.orderMap j).key = (b.orderPool x).id
  slot_entry : ∀ x, OnLevel queue x → ∃! j, j < b.mapCapacity ∧ (b.orderMap j).value = .order x
  id_unique : ∀ x y, OnLevel queue x → OnLevel queue y →
    (b.orderPool x).id = (b.orderPool y).id → x = y

variable {b : LimitOrderBook} {free : List ℕ} {queue : Side → UInt64 → List ℕ}

lemma Inv.existsUnique_level (h : Inv b free queue) {i : ℕ} (hi : OnLevel queue i) :
    ∃! level : Side × UInt64, i ∈ queue level.1 level.2 := by
  refine ⟨((b.orderPool i).side,(b.orderPool i).price),h.pool.mem_own_queue hi,?_⟩
  rintro ⟨s,p⟩ hsp
  obtain ⟨hs,hp,_⟩ := h.pool.queue_mem s p i hsp
  rw [hs,hp]

lemma Inv.entry_slot (h : Inv b free queue) {j x : ℕ} (hj : j < b.mapCapacity)
    (hv : (b.orderMap j).value = .order x) :
    OnLevel queue x ∧ (b.orderMap j).key = (b.orderPool x).id := by
  have hlive : b.table j = .live (b.orderMap j).key x := (b.table_eq_live_iff j _ x).mpr (by rw [← hv])
  obtain ⟨hx,hid⟩ := (h.table_maps _ x).mp ⟨j,hj,hlive⟩
  exact ⟨hx,hid.symm⟩

lemma Inv.existsUnique_entry (h : Inv b free queue) {x : ℕ} (hx : OnLevel queue x) :
    ∃! j, j < b.mapCapacity ∧ (b.orderMap j).value = .order x := by
  obtain ⟨j,hj,hlive⟩ := (h.table_maps _ x).mpr ⟨hx,rfl⟩
  have hv : (b.orderMap j).value = .order x := by rw [(b.table_eq_live_iff j _ x).mp hlive]
  refine ⟨j,⟨hj,hv⟩,?_⟩
  rintro j' ⟨hj',hv'⟩
  have hlive' : b.table j' = .live (b.orderPool x).id x :=
    (b.table_eq_live_iff j' _ x).mpr (by rw [← (h.entry_slot hj' hv').2,← hv'])
  exact h.table_wf.unique j' hj' j hj _ x x hlive' hlive

theorem Inv.representation (h : Inv b free queue) : Representation b free queue where
  free_walks := h.pool.free_walks
  free_nodup := h.pool.free_nodup
  queue_nodup := h.pool.queue_nodup
  slot_bound i hi := (h.pool.partition i).mpr (hi.imp_right .inr)
  slot_place i hi := by
    rcases (h.pool.partition i).mp hi with hf | hheld | hl
    · exact .inl ⟨hf,h.pool.free_not_onLevel i hf⟩
    · simp at hheld
    · exact .inr ⟨fun hf => h.pool.free_not_onLevel i hf hl,h.existsUnique_level hl⟩
  level_walks s p _ := ⟨(h.pool.level s p).forward,(h.pool.level s p).backward⟩
  level_above s p hp := by
    rw [List.eq_nil_iff_forall_not_mem]
    intro i hi
    have := (h.pool.queue_mem s p i hi).2.2
    omega
  head_prev s p _ x hx := by
    have hrep := h.pool.level s p
    have hstart := hrep.forward.start_eq
    change (b.level s p).head = _ at hstart
    obtain ⟨l,hl⟩ := List.head?_eq_some_iff.mp (hstart.symm.trans hx)
    have hfirst : (b.links s p).Represents ([] ++ x :: l) := by
      rwa [hl] at hrep
    exact hfirst.prev_eq
  tail_next s p _ x hx := by
    have hrep := h.pool.level s p
    obtain ⟨l,hl⟩ := List.getLast?_eq_some_iff.mp (hrep.tail_eq.symm.trans hx)
    rw [hl] at hrep
    exact hrep.next_eq
  next_iff_prev s p x hx y hy := (h.pool.level s p).next_eq_some_iff (h.pool.queue_nodup s p) hx hy
  head_none_iff s p _ := by
    have hrep := h.pool.level s p
    have hhead : (b.level s p).head = (queue s p).head? := hrep.forward.start_eq
    have htail : (b.level s p).tail = (queue s p).getLast? := hrep.tail_eq
    rw [hhead,htail,List.head?_eq_none_iff,List.getLast?_eq_none_iff]
  level_fields s p x hx := ⟨(h.pool.queue_mem s p x hx).1,(h.pool.queue_mem s p x hx).2.1⟩
  entry_slot j hj x hv := h.entry_slot hj hv
  slot_entry x hx := h.existsUnique_entry hx
  id_unique x y hx hy hid := h.id_injective hx hy hid

/-- In every reachable state each slot has one place, every level is a doubly linked list, and
the live entries of the order map are the orders on levels. -/
theorem run_representation (maxOrders maxPrice : ℕ) (hmax : 1 ≤ maxOrders) (calls : List BookCall)
    (answers : List Bool) (b : LimitOrderBook)
    (hrun : run LimitOrderBook.call (init maxOrders maxPrice) calls = some (answers,b)) :
    b.maxOrders = maxOrders ∧ b.maxPrice = maxPrice ∧ ∃ free queue, Representation b free queue := by
  obtain ⟨hmaxOrders,hmaxPrice,free,queue,h⟩ := valid_of_run hmax hrun
  exact ⟨hmaxOrders,hmaxPrice,free,queue,h.representation⟩

/-- A head, a middle and a tail removal on one level, with slot reuse in between. -/
theorem run_representation_unlinking : ∃ b,
    run LimitOrderBook.call (init 4 10) [.add 1 .buy 5 10,.add 2 .buy 5 20,.add 3 .buy 5 30,
      .add 4 .buy 5 40,.cancel 2,.add 6 .buy 5 60,.cancel 1,.cancel 6,.modify 3 35] =
      some ([true,true,true,true,true,true,true,true,true],b) ∧
    b.maxOrders = 4 ∧ b.maxPrice = 10 ∧ ∃ free queue, Representation b free queue :=
  run_exists_of_answers (by decide +kernel) fun b hb => run_representation 4 10 (by decide) _ _ b hb

end TickToTrade.LimitOrderBook
