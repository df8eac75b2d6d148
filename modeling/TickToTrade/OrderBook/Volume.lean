import TickToTrade.OrderBook.Live
import Mathlib.Algebra.BigOperators.Group.List.Basic
import Mathlib.Algebra.Group.Action.Defs
import Mathlib.Algebra.Order.BigOperators.Group.List
import Mathlib.Data.UInt

/-! The volume of a level, kept up to date by every path that changes the level, against the sum of
the quantities of its orders. In 64-bit arithmetic they always agree; with 32-bit quantities the sum
stays in range, and no update of the volume wraps. -/
namespace TickToTrade

/-- The quantity of the call, if it has one, fits in 32 bits. -/
def BookCall.Narrow : BookCall → Prop
  | .add _ _ _ quantity => quantity.toNat < 2^32
  | .cancel _ => True
  | .modify _ newQuantity => newQuantity.toNat < 2^32

/-- The sum of 64-bit words is the sum of their values up to multiples of `2^64`. -/
lemma toNat_sum_uint64 (l : List UInt64) : l.sum.toNat = (l.map UInt64.toNat).sum % 2^64 := by
  induction l with
  | nil => rfl
  | cons w l ih =>
    rw [List.sum_cons,List.map_cons,List.sum_cons,UInt64.toNat_add,ih,Nat.add_mod_mod]

namespace LimitOrderBook
open Linked Probing

/-- The volume counters of all levels. -/
def volumes (b : LimitOrderBook) (side : Side) (price : UInt64) : UInt64 := (b.level side price).totalVolume

section Primitives
variable (b : LimitOrderBook) (x : ℕ)

@[simp] lemma volumes_setLevel (side : Side) (price : UInt64) (l : PriceLevel) :
    (b.setLevel side price l).volumes = setAt b.volumes side price l.totalVolume := by
  funext s p
  by_cases hsp : s = side ∧ p = price
  · obtain ⟨rfl,rfl⟩ := hsp
    simp [volumes]
  · rw [setAt_of_ne _ _ hsp,volumes,level_setLevel_of_ne _ _ _ _ _ _ hsp,volumes]

@[simp] lemma volumes_setOrder (o : Order) : (b.setOrder x o).volumes = b.volumes := by
  funext s p
  simp [volumes]

@[simp] lemma volumes_setPrev (q : Option ℕ) : (b.setPrev x q).volumes = b.volumes :=
  b.volumes_setOrder x _

@[simp] lemma volumes_setNext (q : Option ℕ) : (b.setNext x q).volumes = b.volumes :=
  b.volumes_setOrder x _

@[simp] lemma volumes_setEntry (i : ℕ) (e : HashEntry) : (b.setEntry i e).volumes = b.volumes := by
  funext s p
  cases s <;> rfl

lemma volumes_insertOrder : (b.insertOrder x).volumes =
    setAt b.volumes (b.orderPool x).side (b.orderPool x).price
      (b.volumes (b.orderPool x).side (b.orderPool x).price + (b.orderPool x).quantity) := by
  cases ht : (b.level (b.orderPool x).side (b.orderPool x).price).tail with
  | none =>
    simp only [insertOrder,ht,volumes_setLevel,volumes_setNext,volumes_setPrev]
    rfl
  | some t =>
    simp only [insertOrder,ht,volumes_setLevel,volumes_setNext,volumes_setPrev]
    rfl

lemma volumes_unlinkNext : (b.unlinkNext x).volumes = b.volumes := by
  cases hp : (b.orderPool x).prev with
  | none =>
    simp only [unlinkNext,hp,volumes_setLevel]
    exact setAt_eq_self b.volumes _ _
  | some p => simp only [unlinkNext,hp,volumes_setNext]

lemma volumes_unlinkPrev : (b.unlinkPrev x).volumes = b.volumes := by
  cases hn : (b.orderPool x).next with
  | none =>
    simp only [unlinkPrev,hn,volumes_setLevel]
    exact setAt_eq_self b.volumes _ _
  | some n => simp only [unlinkPrev,hn,volumes_setPrev]

lemma volumes_removeOrder : (b.removeOrder x).volumes =
    setAt b.volumes (b.orderPool x).side (b.orderPool x).price
      (b.volumes (b.orderPool x).side (b.orderPool x).price - (b.orderPool x).quantity) := by
  have h₁ := b.unlinkNext_sameExcept x
  have h₂ := (b.unlinkNext x).unlinkPrev_sameExcept x
  have hterms := (h₂.terms x).trans (h₁.terms x)
  have hv : ((b.unlinkNext x).unlinkPrev x).volumes = b.volumes :=
    ((b.unlinkNext x).volumes_unlinkPrev x).trans (b.volumes_unlinkNext x)
  simp only [removeOrder,volumes_setLevel,hv,side_eq_of_terms hterms,price_eq_of_terms hterms,
    quantity_eq_of_terms hterms]
  rw [← hv]
  rfl

end Primitives

variable {b b' : LimitOrderBook} {id : UInt64} {x : ℕ} {q : UInt64}

lemma volumes_mapInsert (h : b.mapInsert id x = some b') : b'.volumes = b.volumes := by
  rw [mapInsert_eq] at h
  obtain ⟨j,_,rfl⟩ := Option.map_eq_some_iff.mp h
  exact b.volumes_setEntry j _

lemma volumes_mapErase (h : b.mapErase id = some b') : b'.volumes = b.volumes := by
  rw [mapErase_eq] at h
  obtain ⟨found,_,rfl⟩ := Option.map_eq_some_iff.mp h
  cases found with
  | none => rfl
  | some j => exact b.volumes_setEntry j _

lemma volumes_add {side : Side} {price : UInt64} (h : b.add id side price q = some (true,b')) :
    b'.volumes = setAt b.volumes side price (b.volumes side price + q) := by
  unfold add at h
  split at h
  · simp at h
  · obtain ⟨found,hfound,h⟩ := Option.bind_eq_some_iff.mp h
    cases found with
    | some y => simp at h
    | none =>
      cases halloc : b.allocateOrder with
      | none => simp [halloc] at h
      | some p =>
        obtain ⟨y,b₁⟩ := p
        simp only [halloc] at h
        obtain ⟨b₂,hins,h⟩ := Option.bind_eq_some_iff.mp h
        obtain ⟨_,rfl⟩ := Prod.mk.inj (Option.some.inj h)
        have hb₁ : b₁.volumes = b.volumes := by
          unfold allocateOrder at halloc
          split at halloc
          · simp at halloc
          · obtain ⟨_,rfl⟩ := Prod.mk.inj (Option.some.inj halloc)
            funext s p
            cases s <;> rfl
        rw [volumes_mapInsert hins,volumes_insertOrder,volumes_setOrder,setOrder_orderPool,
          Function.update_self,hb₁]

lemma volumes_cancel (hfind : b.mapFind id = some (some x)) (h : b.cancel id = some (true,b')) :
    b'.volumes = setAt b.volumes (b.orderPool x).side (b.orderPool x).price
      (b.volumes (b.orderPool x).side (b.orderPool x).price - (b.orderPool x).quantity) := by
  simp only [cancel,hfind,Option.bind_eq_bind,Option.bind_some] at h
  obtain ⟨b₁,herase,h⟩ := Option.bind_eq_some_iff.mp h
  obtain ⟨_,rfl⟩ := Prod.mk.inj (Option.some.inj h)
  have hfree : (b₁.deallocateOrder x).volumes = b₁.volumes := b₁.volumes_setNext x b₁.freeListHead
  rw [hfree,volumes_mapErase herase,volumes_removeOrder]

lemma volumes_modify (hfind : b.mapFind id = some (some x)) (hzero : q ≠ 0)
    (h : b.modify id q = some (true,b')) :
    b'.volumes = setAt b.volumes (b.orderPool x).side (b.orderPool x).price
      (b.volumes (b.orderPool x).side (b.orderPool x).price - (b.orderPool x).quantity + q) := by
  simp only [modify,hfind,Option.bind_eq_bind,Option.bind_some,if_neg hzero] at h
  split at h
  · obtain ⟨_,rfl⟩ := Prod.mk.inj (Option.some.inj h)
    have hterms := (b.removeOrder_sameExcept x).terms x
    rw [volumes_insertOrder,volumes_setOrder,setOrder_orderPool,Function.update_self,
      side_eq_of_terms hterms,price_eq_of_terms hterms,volumes_removeOrder,setAt_setAt,setAt_self]
  · obtain ⟨_,rfl⟩ := Prod.mk.inj (Option.some.inj h)
    rw [volumes_setOrder,volumes_setLevel]
    congr 1
    change b.volumes _ _ - ((b.orderPool x).quantity - q) = _
    grind

/-- The state before the call keeps each `+=` and `-=` that the call makes on a volume counter within
64 bits. -/
def VolumeFits (b : LimitOrderBook) : BookCall → Prop
  | .add id side price quantity =>
    price.toNat < b.maxPrice → b.mapFind id = some none → b.freeListHead ≠ none →
      (b.volumes side price).toNat + quantity.toNat < 2^64
  | .cancel id => ∀ x, b.mapFind id = some (some x) →
      (b.orderPool x).quantity ≤ b.volumes (b.orderPool x).side (b.orderPool x).price
  | .modify id newQuantity => ∀ x, b.mapFind id = some (some x) →
      let volume := b.volumes (b.orderPool x).side (b.orderPool x).price
      if newQuantity = 0 then (b.orderPool x).quantity ≤ volume
      else if (b.orderPool x).quantity < newQuantity then
        (b.orderPool x).quantity ≤ volume ∧
          (volume - (b.orderPool x).quantity).toNat + newQuantity.toNat < 2^64
      else (b.orderPool x).quantity - newQuantity ≤ volume

/-- Every volume counter is the sum of the quantities on its level, in 64-bit arithmetic. -/
def Summed (b : LimitOrderBook) (queue : Side → UInt64 → List ℕ) : Prop :=
  ∀ s p, b.volumes s p = ((queue s p).map fun i => (b.orderPool i).quantity).sum

section Invariant
variable {free free' : List ℕ} {queue queue' : Side → UInt64 → List ℕ} {c : BookCall} {a : Bool}

lemma map_quantity_congr {l : List ℕ} (hkeep : KeepsOthers b b' x) (hx : x ∉ l) :
    (l.map fun i => (b'.orderPool i).quantity) = l.map fun i => (b.orderPool i).quantity := by
  refine List.map_congr_left fun i hi => ?_
  exact quantity_eq_of_terms (hkeep.terms i (ne_of_mem_of_not_mem hi hx))

/-- The counters stay sums when one level exchanges the quantity of the slot `x` for `q` and the
queue of the level changes to match. -/
lemma Summed.setAt_level (h : Summed b queue) (hpool : Pool b free none queue) (hx : OnLevel queue x)
    (hkeep : KeepsOthers b b' x) {l : List ℕ}
    (hsum : (l.map fun i => (b'.orderPool i).quantity).sum =
      (((queue (b.orderPool x).side (b.orderPool x).price).erase x).map
        fun i => (b.orderPool i).quantity).sum + q)
    (hvol : b'.volumes = setAt b.volumes (b.orderPool x).side (b.orderPool x).price
      (b.volumes (b.orderPool x).side (b.orderPool x).price - (b.orderPool x).quantity + q)) :
    Summed b' (setAt queue (b.orderPool x).side (b.orderPool x).price l) := by
  have hmem := hpool.mem_own_queue hx
  intro s p
  rw [hvol]
  by_cases hsp : s = (b.orderPool x).side ∧ p = (b.orderPool x).price
  · obtain ⟨rfl,rfl⟩ := hsp
    have herase := List.sum_map_erase (fun i => (b.orderPool i).quantity) hmem
    rw [setAt_self,setAt_self,hsum,h,← herase]
    grind
  · rw [setAt_of_ne _ _ hsp,setAt_of_ne _ _ hsp,h s p,map_quantity_congr hkeep]
    exact hpool.queue_disjoint hmem hsp

theorem Summed.call (h : Summed b queue) (hinv : Inv b free queue) (hcall : b.call c = some (a,b'))
    (heffect : Effect b free queue c a b' free' queue') : Summed b' queue' := by
  cases heffect with
  | refused => exact h
  | @added id side price quantity _ y _ j hfree hprice habsent hkeep hid hterms =>
    have hy : ¬ OnLevel queue y := hinv.pool.free_not_onLevel y (by simp [hfree])
    intro s p
    rw [volumes_add hcall]
    by_cases hsp : s = side ∧ p = price
    · obtain ⟨rfl,rfl⟩ := hsp
      have hquantity : (b'.orderPool y).quantity = quantity := congrArg Terms.quantity hterms
      rw [setAt_self,setAt_self,List.map_append,List.sum_append,h s p,
        map_quantity_congr hkeep fun hmem => hy ⟨s,p,hmem⟩]
      simp [hquantity]
    · rw [setAt_of_ne _ _ hsp,setAt_of_ne _ _ hsp,h s p,map_quantity_congr hkeep fun hmem => hy ⟨s,p,hmem⟩]
  | unknown => exact h
  | @removed _ id _ y j hc hy hid hkeep =>
    have hfind : b.mapFind id = some (some y) := hinv.mapFind_iff.mpr ⟨hy,hid⟩
    have hcancel : b.cancel id = some (true,b') := by
      rcases hc with rfl | rfl
      · exact hcall
      · exact (modify_zero hfind).symm.trans hcall
    refine h.setAt_level (q := 0) hinv.pool hy hkeep ?_ ?_
    · rw [map_quantity_congr hkeep (hinv.pool.queue_nodup _ _).not_mem_erase,add_zero]
    · rw [add_zero]
      exact volumes_cancel hfind hcancel
  | @increased id q _ y hy hid hq hkeep hid' hterms =>
    have hfind : b.mapFind id = some (some y) := hinv.mapFind_iff.mpr ⟨hy,hid⟩
    have hzero : q ≠ 0 := fun hz => UInt64.not_lt_zero (hz ▸ hq)
    have hquantity : (b'.orderPool y).quantity = q := congrArg Terms.quantity hterms
    refine h.setAt_level hinv.pool hy hkeep ?_ (volumes_modify hfind hzero hcall)
    rw [List.map_append,List.sum_append,map_quantity_congr hkeep (hinv.pool.queue_nodup _ _).not_mem_erase]
    simp [hquantity]
  | @reduced id q _ y hy hid hzero hq hkeep hid' hterms =>
    have hfind : b.mapFind id = some (some y) := hinv.mapFind_iff.mpr ⟨hy,hid⟩
    have hquantity : (b'.orderPool y).quantity = q := congrArg Terms.quantity hterms
    have hmem := hinv.pool.mem_own_queue hy
    rw [← setAt_eq_self queue (b.orderPool y).side (b.orderPool y).price]
    refine h.setAt_level hinv.pool hy hkeep ?_ (volumes_modify hfind hzero hcall)
    have herase := List.sum_map_erase (fun i => (b'.orderPool i).quantity) hmem
    rw [← herase,map_quantity_congr hkeep (hinv.pool.queue_nodup _ _).not_mem_erase,hquantity,add_comm]

lemma Effect.narrow (heffect : Effect b free queue c a b' free' queue') (hinv : Inv b free queue)
    (hc : c.Narrow) (h : ∀ i, OnLevel queue i → (b.orderPool i).quantity.toNat < 2^32) :
    ∀ i, OnLevel queue' i → (b'.orderPool i).quantity.toNat < 2^32 := by
  have hkept : ∀ {x i}, KeepsOthers b b' x → i ≠ x → OnLevel queue i →
      (b'.orderPool i).quantity.toNat < 2^32 := by
    intro x i hkeep hix hi
    rw [quantity_eq_of_terms (hkeep.terms i hix)]
    exact h i hi
  have hnew : ∀ {x i q s p}, KeepsOthers b b' x → (b'.orderPool x).terms = ⟨s,p,q⟩ → q.toNat < 2^32 →
      (i ≠ x → OnLevel queue i) → (b'.orderPool i).quantity.toNat < 2^32 := by
    intro x i q s p hkeep hterms hq hi
    by_cases hix : i = x
    · have hquantity : (b'.orderPool x).quantity = q := congrArg Terms.quantity hterms
      rwa [hix,hquantity]
    · exact hkept hkeep hix (hi hix)
  cases heffect with
  | refused => exact h
  | added _ _ _ hkeep _ hterms =>
    exact fun i hi => hnew hkeep hterms hc fun hix => (onLevel_setAt_append.mp hi).resolve_left hix
  | unknown => exact h
  | removed _ hy _ hkeep =>
    intro i hi
    obtain ⟨hix,hon⟩ := (hinv.pool.onLevel_setAt_erase (hinv.pool.mem_own_queue hy)).mp hi
    exact hkept hkeep hix hon
  | increased hy _ _ hkeep _ hterms =>
    exact fun i hi => hnew hkeep hterms hc fun _ =>
      (hinv.pool.onLevel_setAt_erase_append (hinv.pool.mem_own_queue hy)).mp hi
  | reduced _ _ _ _ hkeep _ hterms => exact fun i hi => hnew hkeep hterms hc fun _ => hi

lemma Inv.length_queue_le (h : Inv b free queue) (s : Side) (p : UInt64) :
    (queue s p).length ≤ b.maxOrders := by
  have hsub : queue s p ⊆ List.range b.maxOrders := by
    intro i hi
    rw [List.mem_range,h.pool.partition i]
    exact .inr (.inr ⟨s,p,hi⟩)
  have hle := ((h.pool.queue_nodup s p).subperm hsub).length_le
  rwa [List.length_range] at hle

lemma Inv.sum_quantities_le (h : Inv b free queue) (hmax : b.maxOrders ≤ 2^32)
    (hnarrow : ∀ i, OnLevel queue i → (b.orderPool i).quantity.toNat < 2^32) (s : Side) (p : UInt64) :
    ((queue s p).map fun i => (b.orderPool i).quantity.toNat).sum ≤ 2^32 * (2^32 - 1) := by
  have hle := List.sum_le_card_nsmul ((queue s p).map fun i => (b.orderPool i).quantity.toNat) (2^32 - 1) (by
    intro n hn
    obtain ⟨i,hi,rfl⟩ := List.mem_map.mp hn
    exact Nat.le_sub_one_of_lt (hnarrow i ⟨s,p,hi⟩))
  rw [List.length_map,smul_eq_mul] at hle
  exact hle.trans (Nat.mul_le_mul_right _ ((h.length_queue_le s p).trans hmax))

lemma Summed.toNat_volumes (h : Summed b queue) (s : Side) (p : UInt64) : (b.volumes s p).toNat =
    ((queue s p).map fun i => (b.orderPool i).quantity.toNat).sum % 2^64 := by
  rw [h s p,toNat_sum_uint64,List.map_map]
  rfl

/-- With 32-bit quantities the counters are the exact sums, with room for one more order. -/
lemma Summed.toNat_volumes_of_narrow (h : Summed b queue) (hinv : Inv b free queue)
    (hmax : b.maxOrders ≤ 2^32)
    (hnarrow : ∀ i, OnLevel queue i → (b.orderPool i).quantity.toNat < 2^32) (s : Side) (p : UInt64) :
    (b.volumes s p).toNat = ((queue s p).map fun i => (b.orderPool i).quantity.toNat).sum ∧
      (b.volumes s p).toNat ≤ 2^32 * (2^32 - 1) := by
  have hle := hinv.sum_quantities_le hmax hnarrow s p
  have heq := h.toNat_volumes s p
  rw [Nat.mod_eq_of_lt (by omega)] at heq
  omega

lemma Summed.volumeFits (h : Summed b queue) (hinv : Inv b free queue) (hmax : b.maxOrders ≤ 2^32)
    (hnarrow : ∀ i, OnLevel queue i → (b.orderPool i).quantity.toNat < 2^32) (hc : c.Narrow) :
    b.VolumeFits c := by
  have hvol := h.toNat_volumes_of_narrow hinv hmax hnarrow
  -- one order's quantity is part of the sum
  have hpart : ∀ {id y}, b.mapFind id = some (some y) →
      (b.orderPool y).quantity ≤ b.volumes (b.orderPool y).side (b.orderPool y).price := by
    intro id y hfind
    have hmem := hinv.pool.mem_own_queue (hinv.mapFind_iff.mp hfind).1
    rw [UInt64.le_iff_toNat_le,(hvol _ _).1]
    exact List.le_sum_of_mem (List.mem_map.mpr ⟨y,hmem,rfl⟩)
  cases c with
  | add id side price quantity =>
    intro _ _ _
    have hbound := (hvol side price).2
    change quantity.toNat < 2^32 at hc
    omega
  | cancel id => exact fun y hfind => hpart hfind
  | modify id q =>
    intro y hfind
    have hle := hpart hfind
    have hbound := (hvol (b.orderPool y).side (b.orderPool y).price).2
    change q.toNat < 2^32 at hc
    dsimp only
    split
    · exact hle
    · split
      · refine ⟨hle,?_⟩
        rw [UInt64.toNat_sub_of_le _ _ hle]
        omega
      · rename_i hq
        have hq' : q ≤ (b.orderPool y).quantity := UInt64.not_lt.mp hq
        rw [UInt64.le_iff_toNat_le] at hle ⊢
        rw [UInt64.toNat_sub_of_le _ _ hq']
        omega

end Invariant

theorem run_summed {maxOrders maxPrice : ℕ} (hmax : 1 ≤ maxOrders) {calls : List BookCall}
    {answers : List Bool} (hrun : run LimitOrderBook.call (init maxOrders maxPrice) calls = some (answers,b)) :
    ∃ free queue, Inv b free queue ∧ Summed b queue ∧ ((∀ c ∈ calls, c.Narrow) →
      ∀ i, OnLevel queue i → (b.orderPool i).quantity.toNat < 2^32) := by
  refine run_induction (I := fun pre _ u => ∃ free queue, Inv u free queue ∧ Summed u queue ∧
    ((∀ c ∈ pre, c.Narrow) → ∀ i, OnLevel queue i → (u.orderPool i).quantity.toNat < 2^32)) ?_ ?_ hrun
  · refine ⟨_,_,inv_init hmax maxPrice,fun s p => ?_,fun _ i hi => ?_⟩
    · cases s <;> rfl
    · simp [OnLevel] at hi
  · rintro pre c post before u a u' _ _ ⟨free,queue,h,hsummed,hnarrow⟩ hcall
    obtain ⟨free',queue',heffect,h'⟩ := h.call_effect hcall
    refine ⟨free',queue',h',hsummed.call h hcall heffect,fun hall => ?_⟩
    rw [List.forall_mem_append,List.forall_mem_singleton] at hall
    exact heffect.narrow h hall.2 (hnarrow hall.1)

/-- In every reachable state the volume of a level is the sum of the quantities of its orders
modulo `2^64`; with 32-bit quantities and at most `2^32` orders it is the sum itself, and the next
call wraps no counter. -/
theorem run_volume_eq_sum (maxOrders maxPrice : ℕ) (hmax : 1 ≤ maxOrders) (calls : List BookCall)
    (answers : List Bool) (b : LimitOrderBook)
    (hrun : run LimitOrderBook.call (init maxOrders maxPrice) calls = some (answers,b)) :
    (∀ side price, price.toNat < maxPrice → ∃ slots,
      Walks (fun i => (b.orderPool i).next) (b.level side price).head slots ∧
      (b.getVolumeAtPrice side price).toNat =
        (slots.map fun i => (b.orderPool i).quantity.toNat).sum % 2^64) ∧
    (maxOrders ≤ 2^32 → (∀ c ∈ calls, c.Narrow) →
      (∀ side price, price.toNat < maxPrice → ∃ slots,
        Walks (fun i => (b.orderPool i).next) (b.level side price).head slots ∧
        (b.getVolumeAtPrice side price).toNat = (slots.map fun i => (b.orderPool i).quantity.toNat).sum) ∧
      ∀ c : BookCall, c.Narrow → b.VolumeFits c) := by
  obtain ⟨hmaxOrders,hmaxPrice,_⟩ := valid_of_run hmax hrun
  obtain ⟨free,queue,h,hsummed,hnarrow⟩ := run_summed hmax hrun
  have hget : ∀ side price, price.toNat < maxPrice →
      b.getVolumeAtPrice side price = b.volumes side price := by
    intro side price hprice
    rw [getVolumeAtPrice,if_neg (by omega),volumes]
  refine ⟨fun side price hprice => ?_,fun hsmall hall => ⟨fun side price hprice => ?_,fun c hc => ?_⟩⟩
  · refine ⟨queue side price,(h.pool.level side price).forward,?_⟩
    rw [hget side price hprice]
    exact hsummed.toNat_volumes side price
  · refine ⟨queue side price,(h.pool.level side price).forward,?_⟩
    rw [hget side price hprice]
    exact (hsummed.toNat_volumes_of_narrow h (hmaxOrders ▸ hsmall) (hnarrow hall) side price).1
  · exact hsummed.volumeFits h (hmaxOrders ▸ hsmall) (hnarrow hall) hc

/-- Insert, remove, an increase and a decrease on one level. -/
theorem run_volume_eq_sum_all_paths : ∃ b,
    run LimitOrderBook.call (init 3 10) [.add 1 .buy 5 10,.add 2 .buy 5 20,.add 3 .buy 5 30,.cancel 2,
      .modify 1 15,.modify 3 25] = some ([true,true,true,true,true,true],b) ∧
    (∀ side price, price.toNat < 10 → ∃ slots,
      Walks (fun i => (b.orderPool i).next) (b.level side price).head slots ∧
      (b.getVolumeAtPrice side price).toNat = (slots.map fun i => (b.orderPool i).quantity.toNat).sum) ∧
    ∀ c : BookCall, c.Narrow → b.VolumeFits c :=
  run_exists_of_answers (by decide +kernel) fun b hb =>
    (run_volume_eq_sum 3 10 (by decide) _ _ b hb).2 (by decide) (by simp [BookCall.Narrow])

end LimitOrderBook
end TickToTrade
