import TickToTrade.OrderBook.Invariant

/-! One theorem for each way a call of the book can go: the answer, the state, and how the
invariant moves with it. -/
namespace TickToTrade.LimitOrderBook
open Linked Probing

variable {b b' : LimitOrderBook} {free : List ℕ} {queue : Side → UInt64 → List ℕ} {id : UInt64} {x : ℕ}

/-- The invariant after a call that keeps the dimensions: what the call has to show is that its
pool is in order and that its table maps the ids of the slots on levels. -/
lemma Inv.of_keepsOthers {free' : List ℕ} {queue' : Side → UInt64 → List ℕ} (h : Inv b free queue)
    (hkeep : KeepsOthers b b' x) (hpool : Pool b' free' none queue')
    (hwf : WellFormed b.mapCapacity UInt64.toNat b'.table)
    (hmaps : ∀ k i, Maps b.mapCapacity b'.table k i ↔ OnLevel queue' i ∧ (b'.orderPool i).id = k) :
    Inv b' free' queue' where
  maxOrders_pos := by
    rw [hkeep.maxOrders]
    exact h.maxOrders_pos
  mapCapacity_eq := by
    rw [hkeep.mapCapacity,hkeep.maxOrders]
    exact h.mapCapacity_eq
  pool := hpool
  table_wf := by
    rw [hkeep.mapCapacity]
    exact hwf
  table_maps := by
    rw [hkeep.mapCapacity]
    exact hmaps

section Add
variable {side : Side} {price quantity : UInt64}

lemma add_of_price (hprice : b.maxPrice ≤ price.toNat) :
    b.add id side price quantity = some (false,b) := by simp [add,hprice]

lemma add_of_live (hprice : price.toNat < b.maxPrice) (hfind : b.mapFind id = some (some x)) :
    b.add id side price quantity = some (false,b) := by
  simp [add,Nat.not_le.mpr hprice,hfind]

lemma Inv.add_of_full (h : Inv b [] queue) (hprice : price.toNat < b.maxPrice)
    (hfind : b.mapFind id = some none) : b.add id side price quantity = some (false,b) := by
  have hfree : b.freeListHead = none := h.freeListHead_eq
  simp [add,Nat.not_le.mpr hprice,hfind,allocateOrder,hfree]

/-- A successful `add`: the head of the free list goes to the tail of its level, and one entry
that was not live now holds the id. -/
theorem Inv.add_fresh (h : Inv b (x :: free) queue) (side : Side) (quantity : UInt64)
    (hprice : price.toNat < b.maxPrice) (hfind : b.mapFind id = some none) :
    ∃ b' j, b.add id side price quantity = some (true,b') ∧
      Inv b' free (setAt queue side price (queue side price ++ [x])) ∧ KeepsOthers b b' x ∧
      (b'.orderPool x).id = id ∧ (b'.orderPool x).terms = ⟨side,price,quantity⟩ ∧
      j < b.mapCapacity ∧ (∀ k v, b.table j ≠ .live k v) ∧
      b'.table = Function.update b.table j (.live id x) := by
  have hcap := h.mapCapacity_pos
  have hfree : b.freeListHead = some x := h.freeListHead_eq
  let b₁ : LimitOrderBook := { b with freeListHead := (b.orderPool x).next }
  let o : Order := { b.orderPool x with id := id, side := side, price := price, quantity := quantity }
  let b₂ := b₁.setOrder x o
  let b₃ := b₂.insertOrder x
  have ho : b₂.orderPool x = o := by simp [b₂]
  have hsame : SameExcept side price b₂ b₃ := by
    have := b₂.insertOrder_sameExcept x
    rwa [ho] at this
  have hpool : Pool b₃ free none (setAt queue side price (queue side price ++ [x])) := by
    have h₂ : Pool b₂ free (some x) queue := h.pool.allocate.setOrder_held o
    have h₃ := h₂.insertOrder (by rw [ho]; exact hprice)
    rwa [ho] at h₃
  have htable : b₃.table = b.table := table_congr hsame.orderMap
  have hcap₃ : b₃.mapCapacity = b.mapCapacity := hsame.mapCapacity
  have habsent : ∀ i, ¬ Maps b.mapCapacity b.table id i :=
    LimitOrderBook.absent_of_mapFind h.table_wf hcap hfind
  -- the search ended at a null entry, so the insertion ends too
  obtain ⟨e,he,hempty⟩ := h.exists_empty_of_mapFind hfind
  obtain ⟨j,hplace,hins⟩ := b₃.mapInsert_of_free id (by rw [hcap₃]; exact hcap)
    (by rw [hcap₃]; exact he) (by rw [htable,hempty]; simp) x
  rw [hcap₃,htable] at hplace
  obtain ⟨d,_,rfl,hslot,_⟩ := place_spec hcap hplace
  have hj := Nat.mod_lt (id.toNat + d) hcap
  have hfinal : (b₃.setEntry ((id.toNat + d) % b.mapCapacity) ⟨id,.order x⟩).table =
      Function.update b.table ((id.toNat + d) % b.mapCapacity) (.live id x) := by
    rw [table_setEntry,htable]
    rfl
  have hkeep : KeepsOthers b (b₃.setEntry ((id.toNat + d) % b.mapCapacity) ⟨id,.order x⟩) x :=
    { (keepsOthers_setOrder b₁ x o).trans (hsame.keepsOthers x) with }
  have hxid : (b₃.orderPool x).id = id := by rw [hsame.id x,ho]
  refine ⟨b₃.setEntry ((id.toNat + d) % b.mapCapacity) ⟨id,.order x⟩,(id.toNat + d) % b.mapCapacity,
    ?_,h.of_keepsOthers hkeep { hpool with } ?_ ?_,hkeep,hxid,?_,hj,?_,hfinal⟩
  · simp only [add,Nat.not_le.mpr hprice,if_false,hfind,Option.bind_eq_bind,Option.bind_some,
      allocateOrder,hfree]
    change ((b₃.mapInsert id x).bind fun b => some (true,b)) = _
    rw [hins]
    rfl
  · rw [hfinal]
    exact h.table_wf.insert habsent hplace hcap x
  · intro k i
    rw [hfinal,maps_insert hcap habsent hplace,onLevel_setAt_append,h.table_maps]
    by_cases hi : i = x
    · subst hi
      have hoff : ¬ OnLevel queue i := h.pool.free_not_onLevel i (by simp)
      change _ ↔ _ ∧ (b₃.orderPool i).id = k
      simp [hxid,hoff,eq_comm]
    · simp [hi,hkeep.id i hi]
  · change (b₃.orderPool x).terms = _
    rw [hsame.terms x,ho]
    rfl
  · intro k v hlive
    obtain rfl := hslot k v hlive
    exact habsent v ⟨_,hj,hlive⟩

end Add

section Cancel

lemma cancel_of_absent (hfind : b.mapFind id = some none) : b.cancel id = some (false,b) := by
  simp [cancel,hfind]

/-- A successful `cancel`: the slot goes from its level to the head of the free list, and its
entry becomes a tombstone. -/
theorem Inv.cancel_live (h : Inv b free queue) (hfind : b.mapFind id = some (some x)) :
    ∃ b' j, b.cancel id = some (true,b') ∧
      Inv b' (x :: free) (setAt queue (b.orderPool x).side (b.orderPool x).price
        ((queue (b.orderPool x).side (b.orderPool x).price).erase x)) ∧ KeepsOthers b b' x ∧
      j < b.mapCapacity ∧ b.table j = .live id x ∧ b'.table = Function.update b.table j .tomb := by
  obtain ⟨hx,hid⟩ := h.mapFind_iff.mp hfind
  have hmem := h.pool.mem_own_queue hx
  have hsame := b.removeOrder_sameExcept x
  let b₁ := b.removeOrder x
  have htable : b₁.table = b.table := table_congr hsame.orderMap
  have hcap₁ : b₁.mapCapacity = b.mapCapacity := hsame.mapCapacity
  have hwf₁ : WellFormed b₁.mapCapacity UInt64.toNat b₁.table := by
    rw [hcap₁,htable]
    exact h.table_wf
  have hmaps₁ : Maps b₁.mapCapacity b₁.table id x := by
    rw [hcap₁,htable,h.table_maps]
    exact ⟨hx,hid⟩
  obtain ⟨j,hj,hlive,herase⟩ := mapErase_of_maps hwf₁ hmaps₁
  rw [hcap₁] at hj
  rw [htable] at hlive
  let b₂ := b₁.setEntry j { b₁.orderMap j with value := .tombstone }
  have hfinal : (b₂.deallocateOrder x).table = Function.update b.table j .tomb := by
    change b₂.table = _
    rw [table_setEntry,htable]
    rfl
  have hpool : Pool b₂ free (some x) _ := { h.pool.removeOrder hx with }
  have hkeep : KeepsOthers b (b₂.deallocateOrder x) x :=
    (hsame.keepsOthers x).trans { keepsOthers_setOrder b₂ x _ with }
  refine ⟨b₂.deallocateOrder x,j,?_,h.of_keepsOthers hkeep hpool.deallocate ?_ ?_,hkeep,hj,hlive,hfinal⟩
  · simp only [cancel,hfind,Option.bind_eq_bind,Option.bind_some]
    change ((b₁.mapErase id).bind fun b => some (true,b.deallocateOrder x)) = _
    rw [herase]
    rfl
  · rw [hfinal]
    exact h.table_wf.erase j
  · intro k i
    rw [hfinal,maps_erase h.table_wf hj hlive,h.table_maps,h.pool.onLevel_setAt_erase hmem]
    by_cases hi : i = x
    · subst hi
      simp only [ne_eq,not_true,false_and,iff_false]
      rintro ⟨hne,_,hk⟩
      exact hne (hk.symm.trans hid)
    · rw [hkeep.id i hi]
      constructor
      · rintro ⟨_,hl,hk⟩
        exact ⟨⟨hi,hl⟩,hk⟩
      · rintro ⟨⟨_,hl⟩,rfl⟩
        exact ⟨fun hk => hi (h.id_injective hl hx (hk.trans hid.symm)),hl,rfl⟩

end Cancel

/-- A call that leaves the table and the set of slots on levels alone keeps the invariant. -/
lemma Inv.of_sameTable {free' : List ℕ} {queue' : Side → UInt64 → List ℕ} (h : Inv b free queue)
    (hkeep : KeepsOthers b b' x) (htable : b'.table = b.table) (hpool : Pool b' free' none queue')
    (hon : ∀ i, OnLevel queue' i ↔ OnLevel queue i)
    (hid : (b'.orderPool x).id = (b.orderPool x).id) : Inv b' free' queue' := by
  refine h.of_keepsOthers hkeep hpool ?_ ?_
  · rw [htable]
    exact h.table_wf
  · intro k i
    rw [htable,h.table_maps,hon i]
    by_cases hi : i = x
    · rw [hi,hid]
    · rw [hkeep.id i hi]

section Modify
variable {newQuantity : UInt64}

lemma modify_of_absent (hfind : b.mapFind id = some none) :
    b.modify id newQuantity = some (false,b) := by
  simp [modify,hfind]

lemma modify_zero (hfind : b.mapFind id = some (some x)) : b.modify id 0 = b.cancel id := by
  simp [modify,hfind]

theorem Inv.modify_increase (h : Inv b free queue) (hfind : b.mapFind id = some (some x))
    (hq : (b.orderPool x).quantity < newQuantity) :
    ∃ b', b.modify id newQuantity = some (true,b') ∧
      Inv b' free (setAt queue (b.orderPool x).side (b.orderPool x).price
        ((queue (b.orderPool x).side (b.orderPool x).price).erase x ++ [x])) ∧ KeepsOthers b b' x ∧
      (b'.orderPool x).id = id ∧
      (b'.orderPool x).terms = ⟨(b.orderPool x).side,(b.orderPool x).price,newQuantity⟩ ∧
      b'.table = b.table := by
  obtain ⟨hx,hid⟩ := h.mapFind_iff.mp hfind
  have hmem := h.pool.mem_own_queue hx
  have hzero : newQuantity ≠ 0 := fun hz => UInt64.not_lt_zero (hz ▸ hq)
  let b₁ := b.removeOrder x
  let o : Order := { b₁.orderPool x with quantity := newQuantity }
  let b₂ := b₁.setOrder x o
  let b₃ := b₂.insertOrder x
  have hsame₁ : SameExcept (b.orderPool x).side (b.orderPool x).price b b₁ := b.removeOrder_sameExcept x
  have ho : b₂.orderPool x = o := by simp [b₂]
  have hside : o.side = (b.orderPool x).side := congrArg Terms.side (hsame₁.terms x)
  have hprice : o.price = (b.orderPool x).price := congrArg Terms.price (hsame₁.terms x)
  have hsame₃ : SameExcept (b.orderPool x).side (b.orderPool x).price b₂ b₃ := by
    have := b₂.insertOrder_sameExcept x
    rwa [ho,hside,hprice] at this
  have hpool : Pool b₃ free none (setAt queue (b.orderPool x).side (b.orderPool x).price
      ((queue (b.orderPool x).side (b.orderPool x).price).erase x ++ [x])) := by
    have h₂ : Pool b₂ free (some x) _ := (h.pool.removeOrder hx).setOrder_held o
    have hlt : (b₂.orderPool x).price.toNat < b₂.maxPrice := by
      rw [ho,hprice]
      change _ < b₁.maxPrice
      rw [hsame₁.maxPrice]
      exact (h.pool.queue_mem _ _ x hmem).2.2
    have h₃ := h₂.insertOrder hlt
    rwa [ho,hside,hprice,setAt_setAt,setAt_self] at h₃
  have hkeep : KeepsOthers b b₃ x :=
    ((hsame₁.keepsOthers x).trans (keepsOthers_setOrder b₁ x o)).trans (hsame₃.keepsOthers x)
  have htable : b₃.table = b.table := table_congr (hsame₃.orderMap.trans hsame₁.orderMap)
  have hxid : (b₃.orderPool x).id = id := by
    rw [hsame₃.id x,ho]
    exact (hsame₁.id x).trans hid
  refine ⟨b₃,?_,?_,hkeep,hxid,?_,htable⟩
  · simp only [modify,hfind,Option.bind_eq_bind,Option.bind_some,if_neg hzero,if_pos hq]
    rfl
  · exact h.of_sameTable hkeep htable hpool (fun _ => h.pool.onLevel_setAt_erase_append hmem)
      (hxid.trans hid.symm)
  · rw [hsame₃.terms x,ho,Order.terms,hside,hprice]

theorem Inv.modify_decrease (h : Inv b free queue) (hfind : b.mapFind id = some (some x))
    (hzero : newQuantity ≠ 0) (hq : newQuantity ≤ (b.orderPool x).quantity) :
    ∃ b', b.modify id newQuantity = some (true,b') ∧ Inv b' free queue ∧ KeepsOthers b b' x ∧
      (b'.orderPool x).id = id ∧
      (b'.orderPool x).terms = ⟨(b.orderPool x).side,(b.orderPool x).price,newQuantity⟩ ∧
      b'.table = b.table := by
  obtain ⟨hx,hid⟩ := h.mapFind_iff.mp hfind
  let o := b.orderPool x
  let l := b.level o.side o.price
  let b₁ := b.setLevel o.side o.price { l with totalVolume := l.totalVolume - (o.quantity - newQuantity) }
  let b₂ := b₁.setOrder x { o with quantity := newQuantity }
  have hsame : SameExcept o.side o.price b b₁ := sameExcept_setLevel ..
  have hpool₁ : b₁.orderPool = b.orderPool := by simp [b₁]
  have hkeep : KeepsOthers b b₂ x := (hsame.keepsOthers x).trans (keepsOthers_setOrder b₁ x _)
  have htable : b₂.table = b.table := table_congr hsame.orderMap
  have hfield : ∀ i, (b₂.orderPool i).side = (b.orderPool i).side ∧
      (b₂.orderPool i).price = (b.orderPool i).price ∧ (b₂.orderPool i).next = (b.orderPool i).next ∧
      (b₂.orderPool i).prev = (b.orderPool i).prev := by
    intro i
    by_cases hi : i = x
    · subst hi
      simp [b₂,o]
    · simp [b₂,hi,hpool₁]
  have hlinks : ∀ s p, b₂.links s p = b.links s p := by
    intro s p
    have hends : (b₂.level s p).head = (b.level s p).head ∧ (b₂.level s p).tail = (b.level s p).tail := by
      by_cases hsp : s = o.side ∧ p = o.price
      · obtain ⟨rfl,rfl⟩ := hsp
        simp [b₂,b₁,l]
      · simp [b₂,hsame.level s p hsp]
    simp only [links,Links.mk.injEq,hends,and_true]
    exact ⟨funext fun i => (hfield i).2.2.1,funext fun i => (hfield i).2.2.2⟩
  have hpool : Pool b₂ free none queue := h.pool.congr hkeep.maxOrders hkeep.maxPrice
    hsame.freeListHead hlinks (fun i => (hfield i).1) (fun i => (hfield i).2.1)
  have hxid : (b₂.orderPool x).id = id := by simpa [b₂,o] using hid
  refine ⟨b₂,?_,?_,hkeep,hxid,?_,htable⟩
  · simp only [modify,hfind,Option.bind_eq_bind,Option.bind_some,if_neg hzero,
      if_neg (UInt64.not_lt.mpr hq)]
    rfl
  · exact h.of_sameTable hkeep htable hpool (fun _ => Iff.rfl) (hxid.trans hid.symm)
  · simp [b₂,o,Order.terms]

end Modify
end TickToTrade.LimitOrderBook
