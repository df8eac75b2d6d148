import TickToTrade.OrderBook.Refinement
import TickToTrade.OrderBook.Volume

/-! Algebra of `modify`. An increase is a `cancel` followed by an `add` at the same level, up to where
in the pool and the table the order lies; two decreases in a row are the second alone. -/
namespace TickToTrade

/-- The volume of a level of the reference book. -/
def ReferenceBook.volume (r : ReferenceBook) (side : Side) (price : UInt64) : UInt64 :=
  ((r.queue side price).map r.quantity).sum

lemma ReferenceBook.modify_eq_cancel_add {r : ReferenceBook} {id q : UInt64} {t : Terms}
    (ht : r.orders.lookup id = some t) (hq : t.quantity < q) (hprice : t.price.toNat < r.maxPrice)
    (hcard : r.orders.keys.card ≤ r.maxOrders) :
    (r.cancel id).1 = true ∧ (r.cancel id).2.add id t.side t.price q = (true,(r.modify id q).2) := by
  have hzero : q ≠ 0 := fun hz => UInt64.not_lt_zero (hz ▸ hq)
  have hmem : id ∈ r.orders.keys := by
    rw [Finmap.mem_keys,← Finmap.lookup_isSome,ht]
    rfl
  have hroom : ¬ (r.maxPrice ≤ t.price.toNat ∨ id ∈ r.orders.erase id ∨
      (r.orders.erase id).keys.card = r.maxOrders) := by
    rw [Finmap.keys_erase,Finset.card_erase_of_mem hmem]
    have hpos := Finset.card_pos.mpr ⟨id,hmem⟩
    rintro (hp | hl | hc)
    · omega
    · exact Finmap.notMem_erase_self hl
    · omega
  have horders : (r.orders.erase id).insert id ⟨t.side,t.price,q⟩ =
      r.orders.insert id { t with quantity := q } := by
    apply Finmap.ext_lookup
    intro k
    by_cases hk : k = id
    · subst hk
      rw [Finmap.lookup_insert,Finmap.lookup_insert]
    · rw [Finmap.lookup_insert_of_ne _ hk,Finmap.lookup_insert_of_ne _ hk,Finmap.lookup_erase_ne hk]
  simp only [cancel,ht,true_and]
  rw [add,if_neg hroom,modify,ht]
  simp only [if_neg hzero,if_pos hq,horders,setAt_self,setAt_setAt]

namespace LimitOrderBook
open Linked Probing

/-- Two books that no query on orders, levels or volumes tells apart. -/
structure SameContents (b b' : LimitOrderBook) : Prop where
  orders : ∀ id t, (∃ x, b.getOrder id = some (some x) ∧ (b.orderPool x).terms = t) ↔
    ∃ x, b'.getOrder id = some (some x) ∧ (b'.orderPool x).terms = t
  queues : ∀ side price, price.toNat < b.maxPrice → ∃ slots slots',
    Walks (fun i => (b.orderPool i).next) (b.level side price).head slots ∧
    Walks (fun i => (b'.orderPool i).next) (b'.level side price).head slots' ∧
    (slots.map fun i => (b.orderPool i).id) = slots'.map fun i => (b'.orderPool i).id
  volumes : ∀ side price, b.getVolumeAtPrice side price = b'.getVolumeAtPrice side price

variable {b b' : LimitOrderBook} {free free' : List ℕ} {queue queue' : Side → UInt64 → List ℕ}
  {r : ReferenceBook} {id : UInt64} {x : ℕ}

/-- The queues are what the level lists say. -/
lemma Inv.queue_unique (h : Inv b free queue) (h' : Inv b free' queue') : queue = queue' := by
  funext s p
  exact (h.pool.level s p).forward.unique (h'.pool.level s p).forward

lemma Abstracts.volumes_eq (ha : Abstracts b queue r) (hsummed : Summed b queue) : b.volumes = r.volume := by
  funext s p
  rw [hsummed s p,ReferenceBook.volume,ha.queue,List.map_map]
  congr 1
  refine List.map_congr_left fun i hi => ?_
  exact (ha.quantity_slot ⟨s,p,hi⟩).symm

lemma Refines.maxPrice_eq (h : Refines b r) (h' : Refines b' r) : b'.maxPrice = b.maxPrice := by
  obtain ⟨_,_,_,ha⟩ := h
  obtain ⟨_,_,_,ha'⟩ := h'
  rw [← ha.maxPrice,← ha'.maxPrice]

lemma Refines.sameContents {r : ReferenceBook} (h : Refines b r) (h' : Refines b' r)
    (hv : b.volumes = r.volume) (hv' : b'.volumes = r.volume) : SameContents b b' where
  orders id t := by
    have hiff : ∀ {u : LimitOrderBook}, Refines u r →
        ((∃ x, u.getOrder id = some (some x) ∧ (u.orderPool x).terms = t) ↔ r.orders.lookup id = some t) := by
      rintro u ⟨free,queue,hinv,ha⟩
      rw [ha.orders]
      simp only [getOrder,hinv.mapFind_iff,and_assoc]
    rw [hiff h,hiff h']
  queues side price hprice := by
    obtain ⟨slots,hwalk,_,hids⟩ := h.agrees.levels side price hprice
    obtain ⟨slots',hwalk',_,hids'⟩ := h'.agrees.levels side price (h.maxPrice_eq h' ▸ hprice)
    exact ⟨slots,slots',hwalk,hwalk',hids.trans hids'.symm⟩
  volumes side price := by
    have hsame : b.volumes side price = b'.volumes side price := by rw [hv,hv']
    rw [getVolumeAtPrice,getVolumeAtPrice,h.maxPrice_eq h']
    split
    · rfl
    · exact hsame

lemma volumes_of_run {maxOrders maxPrice : ℕ} (hmax : 1 ≤ maxOrders) {calls : List BookCall}
    {answers : List Bool} (hrun : run LimitOrderBook.call (init maxOrders maxPrice) calls = some (answers,b))
    (hR : Refines b r) : b.volumes = r.volume := by
  obtain ⟨free,queue,hinv,ha⟩ := hR
  obtain ⟨free',queue',hinv',hsummed,_⟩ := run_summed hmax hrun
  obtain rfl := hinv.queue_unique hinv'
  exact ha.volumes_eq hsummed

lemma mapFind_congr (hmap : b'.orderMap = b.orderMap) (hcap : b'.mapCapacity = b.mapCapacity) (id : UInt64) :
    b'.mapFind id = b.mapFind id := by
  have hbody : b'.findBody id = b.findBody id := by
    funext i
    rw [findBody,findBody,hmap]
  rw [mapFind,mapFind,hbody,hcap]

/-- A decrease, or the same quantity again, written out. -/
lemma modify_of_le {q : UInt64} (hfind : b.mapFind id = some (some x)) (hzero : q ≠ 0)
    (hq : q ≤ (b.orderPool x).quantity) :
    b.modify id q = some (true,(b.setLevel (b.orderPool x).side (b.orderPool x).price
      { b.level (b.orderPool x).side (b.orderPool x).price with totalVolume :=
          (b.level (b.orderPool x).side (b.orderPool x).price).totalVolume -
            ((b.orderPool x).quantity - q) }).setOrder x { b.orderPool x with quantity := q }) := by
  simp only [modify,hfind,Option.bind_eq_bind,Option.bind_some,if_neg hzero,if_neg (UInt64.not_lt.mpr hq)]

lemma setLevel_setOrder_setLevel_setOrder (b : LimitOrderBook) (side : Side) (price : UInt64)
    (l l' : PriceLevel) (x : ℕ) (o o' : Order) :
    ((((b.setLevel side price l).setOrder x o).setLevel side price l').setOrder x o') =
      (b.setLevel side price l').setOrder x o' := by
  cases side <;> simp [setLevel,setOrder]

lemma modify_modify_of_le {a c : UInt64} (hfind : b.mapFind id = some (some x)) (hc : c ≠ 0) (hca : c ≤ a)
    (ha : a ≤ (b.orderPool x).quantity) :
    ∃ b₁ b₂, b.modify id a = some (true,b₁) ∧ b₁.modify id c = some (true,b₂) ∧
      b.modify id c = some (true,b₂) := by
  have hazero : a ≠ 0 := by
    rintro rfl
    exact hc (UInt64.le_zero_iff.mp hca)
  have hcq : c ≤ (b.orderPool x).quantity := UInt64.le_trans hca ha
  refine ⟨_,_,modify_of_le hfind hazero ha,?_,modify_of_le hfind hc hcq⟩
  set o := b.orderPool x
  set l := b.level o.side o.price
  set b₁ := (b.setLevel o.side o.price
    { l with totalVolume := l.totalVolume - (o.quantity - a) }).setOrder x { o with quantity := a } with hb₁
  have hfind₁ : b₁.mapFind id = some (some x) := by
    rw [← hfind]
    exact mapFind_congr (by simp [b₁]) (by simp [b₁]) id
  have hx₁ : b₁.orderPool x = { o with quantity := a } := by simp [b₁]
  have hl₁ : b₁.level o.side o.price = { l with totalVolume := l.totalVolume - (o.quantity - a) } := by
    simp [b₁]
  rw [modify_of_le hfind₁ hc (by rwa [hx₁]),hx₁]
  simp only [hl₁]
  rw [hb₁,setLevel_setOrder_setLevel_setOrder]
  have hvolume : l.totalVolume - (o.quantity - a) - (a - c) = l.totalVolume - (o.quantity - c) := by grind
  rw [hvolume]

/-- At every reachable state, for every live order: an increase leaves the same contents as a cancel
followed by an add with the new quantity, and a decrease makes a decrease just before it redundant. -/
theorem run_modify_algebra (maxOrders maxPrice : ℕ) (hmax : 1 ≤ maxOrders) (calls : List BookCall)
    (answers : List Bool) (b : LimitOrderBook)
    (hrun : run LimitOrderBook.call (init maxOrders maxPrice) calls = some (answers,b)) (id : UInt64) (x : ℕ)
    (hx : b.getOrder id = some (some x)) :
    (∀ q, (b.orderPool x).quantity < q → ∃ b₁, b.modify id q = some (true,b₁) ∧
      ∀ answers' b₂, run LimitOrderBook.call b
          [.cancel id,.add id (b.orderPool x).side (b.orderPool x).price q] = some (answers',b₂) →
        answers' = [true,true] ∧ SameContents b₁ b₂) ∧
    ∀ a c, 0 < c → c ≤ a → a ≤ (b.orderPool x).quantity → ∃ b₁,
      run LimitOrderBook.call b [.modify id a,.modify id c] = some ([true,true],b₁) ∧
      run LimitOrderBook.call b [.modify id c] = some ([true],b₁) := by
  have hR := (refines_of_run hmax hrun).2
  set r := (runTotal ReferenceBook.call (ReferenceBook.init maxOrders maxPrice) calls).2
  have ⟨free,queue,hinv,ha⟩ := hR
  have hon := (hinv.mapFind_iff.mp hx).1
  constructor
  · intro q hq
    obtain ⟨b₁,hmodify,_⟩ := hinv.modify_increase hx hq
    have hcall₁ : b.call (.modify id q) = some (true,b₁) := hmodify
    refine ⟨b₁,hmodify,fun answers' b₂ hrun₂ => ?_⟩
    -- the reference does the same either way
    have hlookup : r.orders.lookup id = some (b.orderPool x).terms := by
      rw [← (hinv.mapFind_iff.mp hx).2]
      exact ha.lookup_slot hon
    have hprice := (hinv.pool.queue_mem _ _ x (hinv.pool.mem_own_queue hon)).2.2
    have hcard := hinv.card_keys ha
    obtain ⟨hcancel,hadd⟩ := r.modify_eq_cancel_add hlookup hq (by rwa [ha.maxPrice])
      (by rw [ha.maxOrders]; omega)
    have hR₁ := (hR.call hcall₁).2
    obtain ⟨a₁,b₃,_,hcall₃,hrun₃,rfl⟩ := run_cons_eq_some.mp hrun₂
    obtain ⟨a₂,b₄,_,hcall₄,hnil,rfl⟩ := run_cons_eq_some.mp hrun₃
    obtain ⟨rfl,rfl⟩ := Prod.mk.inj (Option.some.inj hnil)
    obtain ⟨ha₁,hR₃⟩ := hR.call hcall₃
    obtain ⟨ha₂,hR₄⟩ := hR₃.call hcall₄
    have hadd' : (r.cancel id).2.add id (b.orderPool x).side (b.orderPool x).price q =
        (true,(r.modify id q).2) := hadd
    simp only [ReferenceBook.call,hcancel,hadd'] at ha₁ ha₂ hR₁ hR₄
    have hv₁ := volumes_of_run hmax (run_concat hrun hcall₁) hR₁
    have hv₂ := volumes_of_run hmax (run_append_eq_some.mpr ⟨b,answers,_,hrun,hrun₂,rfl⟩) hR₄
    exact ⟨by rw [← ha₁,← ha₂],hR₁.sameContents hR₄ hv₁ hv₂⟩
  · intro a c hc hca ha'
    obtain ⟨b₁,b₂,h₁,h₂,h₃⟩ := modify_modify_of_le hx (UInt64.pos_iff_ne_zero.mp hc) hca ha'
    refine ⟨b₂,?_,?_⟩
    · simp [run,call,h₁,h₂]
    · simp [run,call,h₃]

/-- The order is in the middle of its level and its table entry behind a colliding one. -/
theorem run_modify_algebra_middle : ∃ b b₁ b₂,
    run LimitOrderBook.call (init 3 10) [.add 1 .buy 5 10,.add 7 .buy 5 20,.add 13 .buy 5 30] =
      some ([true,true,true],b) ∧
    b.modify 7 25 = some (true,b₁) ∧
    run LimitOrderBook.call b [.cancel 7,.add 7 .buy 5 25] = some ([true,true],b₂) ∧ SameContents b₁ b₂ := by
  have h := (run_modify_algebra 3 10 (by decide) _ _ _
    (rfl : run LimitOrderBook.call (init 3 10) [.add 1 .buy 5 10,.add 7 .buy 5 20,.add 13 .buy 5 30] = _)
    7 1 rfl).1 25 (by decide)
  obtain ⟨b₁,hmodify,hsame⟩ := h
  exact ⟨_,b₁,_,rfl,hmodify,rfl,(hsame _ _ rfl).2⟩

end LimitOrderBook
end TickToTrade
