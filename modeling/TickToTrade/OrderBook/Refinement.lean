import TickToTrade.OrderBook.Live
import TickToTrade.OrderBook.Reference
import TickToTrade.Library.Run

/-! The pointer-level book refines the reference book: a call that returns gives the answer of
the reference, and afterwards the two hold the same orders in the same queues. -/
namespace TickToTrade.LimitOrderBook
open Linked Probing

/-- The reference state that the slots on levels stand for. -/
structure Abstracts (b : LimitOrderBook) (queue : Side → UInt64 → List ℕ) (r : ReferenceBook) : Prop where
  maxOrders : r.maxOrders = b.maxOrders
  maxPrice : r.maxPrice = b.maxPrice
  orders : ∀ k t, r.orders.lookup k = some t ↔
    ∃ i, OnLevel queue i ∧ (b.orderPool i).id = k ∧ (b.orderPool i).terms = t
  queue : ∀ s p, r.queue s p = (queue s p).map fun i => (b.orderPool i).id

/-- The simulation relation between a book and a reference book. -/
def Refines (b : LimitOrderBook) (r : ReferenceBook) : Prop :=
  ∃ free queue, Inv b free queue ∧ Abstracts b queue r

theorem refines_init {maxOrders : ℕ} (h : 1 ≤ maxOrders) (maxPrice : ℕ) :
    Refines (init maxOrders maxPrice) (ReferenceBook.init maxOrders maxPrice) := by
  refine ⟨_,_,inv_init h maxPrice,rfl,rfl,fun k t => ?_,fun s p => rfl⟩
  simp [ReferenceBook.init,OnLevel]

variable {b b' : LimitOrderBook} {free : List ℕ} {queue : Side → UInt64 → List ℕ} {r : ReferenceBook}

lemma Abstracts.mem_iff (ha : Abstracts b queue r) (k : UInt64) : k ∈ r.orders ↔ Live b queue k := by
  rw [← Finmap.lookup_isSome,Option.isSome_iff_exists]
  simp only [ha.orders]
  constructor
  · rintro ⟨t,i,hi,hid,_⟩
    exact ⟨i,hi,hid⟩
  · rintro ⟨i,hi,hid⟩
    exact ⟨_,i,hi,hid,rfl⟩

lemma Abstracts.lookup_eq_none (ha : Abstracts b queue r) {k : UInt64} (h : ¬ Live b queue k) :
    r.orders.lookup k = none := by
  rwa [Finmap.lookup_eq_none,ha.mem_iff]

/-- Free slots and live ids together make up the pool. -/
theorem Inv.card_keys (h : Inv b free queue) (ha : Abstracts b queue r) :
    r.orders.keys.card + free.length = b.maxOrders := by
  have hmem := h.mem_range_sdiff_free
  have hkeys : r.orders.keys =
      (Finset.range b.maxOrders \ free.toFinset).image fun i => (b.orderPool i).id := by
    ext k
    rw [Finmap.mem_keys,ha.mem_iff,Finset.mem_image]
    simp only [hmem]
    rfl
  rw [hkeys,Finset.card_image_of_injOn,h.card_range_sdiff_free]
  intro i hi j hj hij
  exact h.id_injective ((hmem i).mp hi) ((hmem j).mp hj) hij

lemma Inv.map_erase (h : Inv b free queue) {s : Side} {p : UInt64} {x : ℕ} (hx : x ∈ queue s p) :
    ((queue s p).erase x).map (fun i => (b.orderPool i).id) =
      ((queue s p).map fun i => (b.orderPool i).id).erase (b.orderPool x).id := by
  have hinj : ∀ i ∈ queue s p, (b.orderPool i).id = (b.orderPool x).id → i = x :=
    fun i hi => h.id_injective ⟨s,p,hi⟩ ⟨s,p,hx⟩
  generalize queue s p = l at hinj
  induction l with
  | nil => rfl
  | cons y l ih =>
    by_cases hy : y = x
    · simp [hy]
    · have hne : (b.orderPool y).id ≠ (b.orderPool x).id := fun heq => hy (hinj y (by simp) heq)
      rw [List.erase_cons_tail (by simpa using hy),List.map_cons,List.map_cons,
        List.erase_cons_tail (by simpa using hne),ih fun i hi => hinj i (by simp [hi])]

/-- Ids along a queue are the same in two books that agree on its slots. -/
lemma map_id_congr {l : List ℕ} (h : ∀ i ∈ l, (b'.orderPool i).id = (b.orderPool i).id) :
    l.map (fun i => (b'.orderPool i).id) = l.map fun i => (b.orderPool i).id :=
  List.map_congr_left h

lemma Abstracts.added (ha : Abstracts b queue r) {id price quantity : UInt64} {side : Side} {x : ℕ}
    (hx : ¬ OnLevel queue x) (habsent : ¬ Live b queue id) (hkeep : KeepsOthers b b' x)
    (hid : (b'.orderPool x).id = id) (hterms : (b'.orderPool x).terms = ⟨side,price,quantity⟩) :
    Abstracts b' (setAt queue side price (queue side price ++ [x])) { r with
      orders := r.orders.insert id ⟨side,price,quantity⟩
      queue := setAt r.queue side price (r.queue side price ++ [id]) } where
  maxOrders := ha.maxOrders.trans hkeep.maxOrders.symm
  maxPrice := ha.maxPrice.trans hkeep.maxPrice.symm
  orders k t := by
    simp only [onLevel_setAt_append]
    by_cases hk : k = id
    · subst hk
      rw [Finmap.lookup_insert]
      constructor
      · intro ht
        exact ⟨x,.inl rfl,hid,by rw [hterms,Option.some.inj ht]⟩
      · rintro ⟨i,rfl | hi,hik,hit⟩
        · rw [← hit,hterms]
        · have hix : i ≠ x := fun hix => hx (hix ▸ hi)
          exact absurd ⟨i,hi,(hkeep.id i hix).symm.trans hik⟩ habsent
    · rw [Finmap.lookup_insert_of_ne _ hk,ha.orders]
      constructor
      · rintro ⟨i,hi,hik,hit⟩
        have hix : i ≠ x := fun hix => hx (hix ▸ hi)
        exact ⟨i,.inr hi,(hkeep.id i hix).trans hik,(hkeep.terms i hix).trans hit⟩
      · rintro ⟨i,rfl | hi,hik,hit⟩
        · exact absurd (hik.symm.trans hid) hk
        · have hix : i ≠ x := fun hix => hx (hix ▸ hi)
          exact ⟨i,hi,(hkeep.id i hix).symm.trans hik,(hkeep.terms i hix).symm.trans hit⟩
  queue s p := by
    have hsame : ∀ s p, (queue s p).map (fun i => (b'.orderPool i).id) = r.queue s p := by
      intro s p
      rw [ha.queue]
      exact map_id_congr fun i hi => hkeep.id i fun hix => hx ⟨s,p,hix ▸ hi⟩
    by_cases hsp : s = side ∧ p = price
    · obtain ⟨rfl,rfl⟩ := hsp
      simp [hsame,hid]
    · simp only [setAt_of_ne _ _ hsp]
      exact (hsame s p).symm

lemma Abstracts.removed (h : Inv b free queue) (ha : Abstracts b queue r) {x : ℕ}
    (hx : OnLevel queue x) (hkeep : KeepsOthers b b' x) :
    Abstracts b' (dropped b queue x) { r with
      orders := r.orders.erase (b.orderPool x).id
      queue := setAt r.queue (b.orderPool x).side (b.orderPool x).price
        ((r.queue (b.orderPool x).side (b.orderPool x).price).erase (b.orderPool x).id) } where
  maxOrders := ha.maxOrders.trans hkeep.maxOrders.symm
  maxPrice := ha.maxPrice.trans hkeep.maxPrice.symm
  orders k t := by
    simp only [dropped,h.pool.onLevel_setAt_erase (h.pool.mem_own_queue hx)]
    by_cases hk : k = (b.orderPool x).id
    · subst hk
      rw [Finmap.lookup_erase]
      constructor
      · intro ht
        simp at ht
      · rintro ⟨i,⟨hix,hi⟩,hik,_⟩
        exact absurd (h.id_injective hi hx ((hkeep.id i hix).symm.trans hik)) hix
    · rw [Finmap.lookup_erase_ne hk,ha.orders]
      constructor
      · rintro ⟨i,hi,hik,hit⟩
        have hix : i ≠ x := by
          rintro rfl
          exact hk hik.symm
        exact ⟨i,⟨hix,hi⟩,(hkeep.id i hix).trans hik,(hkeep.terms i hix).trans hit⟩
      · rintro ⟨i,⟨hix,hi⟩,hik,hit⟩
        exact ⟨i,hi,(hkeep.id i hix).symm.trans hik,(hkeep.terms i hix).symm.trans hit⟩
  queue s p := by
    have hmem := h.pool.mem_own_queue hx
    simp only [dropped]
    by_cases hsp : s = (b.orderPool x).side ∧ p = (b.orderPool x).price
    · obtain ⟨rfl,rfl⟩ := hsp
      rw [setAt_self,setAt_self,ha.queue,← h.map_erase hmem]
      refine (map_id_congr fun i hi => hkeep.id i ?_).symm
      rintro rfl
      exact (h.pool.queue_nodup _ _).not_mem_erase hi
    · rw [setAt_of_ne _ _ hsp,setAt_of_ne _ _ hsp,ha.queue]
      refine (map_id_congr fun i hi => hkeep.id i ?_).symm
      rintro rfl
      exact h.pool.queue_disjoint hmem hsp hi

/-- Changing the quantity of one live slot changes one value of the map. -/
lemma Abstracts.retermed (ha : Abstracts b queue r) {queue' : Side → UInt64 → List ℕ} {x : ℕ} {t : Terms}
    (h : Inv b free queue) (hx : OnLevel queue x) (hon : ∀ i, OnLevel queue' i ↔ OnLevel queue i)
    (hkeep : KeepsOthers b b' x) (hid : (b'.orderPool x).id = (b.orderPool x).id)
    (hterms : (b'.orderPool x).terms = t) (k : UInt64) (t' : Terms) :
    (r.orders.insert (b.orderPool x).id t).lookup k = some t' ↔
      ∃ i, OnLevel queue' i ∧ (b'.orderPool i).id = k ∧ (b'.orderPool i).terms = t' := by
  simp only [hon]
  by_cases hk : k = (b.orderPool x).id
  · subst hk
    rw [Finmap.lookup_insert]
    constructor
    · intro ht
      exact ⟨x,hx,hid,by rw [hterms,Option.some.inj ht]⟩
    · rintro ⟨i,hi,hik,hit⟩
      by_cases hix : i = x
      · rw [← hit,hix,hterms]
      · exact absurd (h.id_injective hi hx ((hkeep.id i hix).symm.trans hik)) hix
  · rw [Finmap.lookup_insert_of_ne _ hk,ha.orders]
    have hne : ∀ i, (b'.orderPool i).id = k ∨ (b.orderPool i).id = k → i ≠ x := by
      rintro i hik rfl
      rcases hik with hik | hik
      · exact hk (hik.symm.trans hid)
      · exact hk hik.symm
    constructor
    · rintro ⟨i,hi,hik,hit⟩
      have hix := hne i (.inr hik)
      exact ⟨i,hi,(hkeep.id i hix).trans hik,(hkeep.terms i hix).trans hit⟩
    · rintro ⟨i,hi,hik,hit⟩
      have hix := hne i (.inl hik)
      exact ⟨i,hi,(hkeep.id i hix).symm.trans hik,(hkeep.terms i hix).symm.trans hit⟩

lemma keepsOthers_id {x : ℕ} (hkeep : KeepsOthers b b' x)
    (hid : (b'.orderPool x).id = (b.orderPool x).id) (i : ℕ) :
    (b'.orderPool i).id = (b.orderPool i).id := by
  by_cases hix : i = x
  · rw [hix,hid]
  · exact hkeep.id i hix

lemma Abstracts.lookup_slot (ha : Abstracts b queue r) {x : ℕ} (hx : OnLevel queue x) :
    r.orders.lookup (b.orderPool x).id = some (b.orderPool x).terms :=
  (ha.orders _ _).mpr ⟨x,hx,rfl,rfl⟩

lemma Abstracts.quantity_slot (ha : Abstracts b queue r) {x : ℕ} (hx : OnLevel queue x) :
    r.quantity (b.orderPool x).id = (b.orderPool x).quantity := by
  rw [ReferenceBook.quantity,ha.lookup_slot hx]
  rfl

theorem Refines.call (hR : Refines b r) {c : BookCall} {a : Bool} (hcall : b.call c = some (a,b')) :
    (r.call c).1 = a ∧ Refines b' (r.call c).2 := by
  obtain ⟨free,queue,h,ha⟩ := hR
  obtain ⟨free',queue',heffect,h'⟩ := h.call_effect hcall
  have hcard := h.card_keys ha
  cases heffect with
  | @refused id side price quantity why =>
    have hwhy : r.maxPrice ≤ price.toNat ∨ id ∈ r.orders ∨ r.orders.keys.card = r.maxOrders := by
      rw [ha.maxPrice,ha.mem_iff,ha.maxOrders]
      refine why.imp_right (Or.imp_right fun hfree => ?_)
      rw [hfree] at hcard
      simpa using hcard
    simp only [ReferenceBook.call,ReferenceBook.add,if_pos hwhy]
    exact ⟨trivial,free,queue,h,ha⟩
  | @added id side price quantity _ x _ j hfree hprice habsent hkeep hid hterms =>
    have hwhy : ¬ (r.maxPrice ≤ price.toNat ∨ id ∈ r.orders ∨ r.orders.keys.card = r.maxOrders) := by
      rw [ha.maxPrice,ha.mem_iff,ha.maxOrders]
      rw [hfree,List.length_cons] at hcard
      rintro (hp | hl | hc)
      · omega
      · exact habsent hl
      · omega
    have hx : ¬ OnLevel queue x := h.pool.free_not_onLevel x (by rw [hfree]; simp)
    simp only [ReferenceBook.call,ReferenceBook.add,if_neg hwhy]
    exact ⟨trivial,_,_,h',ha.added hx habsent hkeep hid hterms⟩
  | @unknown _ id hc habsent =>
    have hnone := ha.lookup_eq_none habsent
    rcases hc with rfl | ⟨q,rfl⟩
    · simp only [ReferenceBook.call,ReferenceBook.cancel,hnone]
      exact ⟨trivial,free,queue,h,ha⟩
    · simp only [ReferenceBook.call,ReferenceBook.modify,hnone]
      exact ⟨trivial,free,queue,h,ha⟩
  | @removed _ id _ x j hc hx hid hkeep =>
    subst hid
    have hsome := ha.lookup_slot hx
    have hcancel : r.call c = r.cancel (b.orderPool x).id := by
      rcases hc with rfl | rfl
      · rfl
      · simp [ReferenceBook.call,ReferenceBook.modify,hsome]
    rw [hcancel]
    simp only [ReferenceBook.cancel,hsome]
    exact ⟨trivial,_,_,h',Abstracts.removed h ha hx hkeep⟩
  | @increased id q _ x hx hid hq hkeep hid' hterms =>
    subst hid
    have hzero : q ≠ 0 := fun hz => UInt64.not_lt_zero (hz ▸ hq)
    have hmem := h.pool.mem_own_queue hx
    have hids := keepsOthers_id hkeep hid'
    have hon : ∀ i, OnLevel (requeued b queue x) i ↔ OnLevel queue i :=
      fun _ => h.pool.onLevel_setAt_erase_append hmem
    simp only [ReferenceBook.call,ReferenceBook.modify,ha.lookup_slot hx,if_neg hzero,Order.terms,
      if_pos hq]
    refine ⟨trivial,_,_,h',ha.maxOrders.trans hkeep.maxOrders.symm,ha.maxPrice.trans hkeep.maxPrice.symm,
      ha.retermed h hx hon hkeep hid' hterms,fun s p => ?_⟩
    simp only [requeued]
    by_cases hsp : s = (b.orderPool x).side ∧ p = (b.orderPool x).price
    · obtain ⟨rfl,rfl⟩ := hsp
      simp only [setAt_self,hids,List.map_append,h.map_erase hmem,ha.queue,List.map_cons,List.map_nil]
    · simp only [setAt_of_ne _ _ hsp,hids,ha.queue]
  | @reduced id q _ x hx hid hzero hq hkeep hid' hterms =>
    subst hid
    have hids := keepsOthers_id hkeep hid'
    simp only [ReferenceBook.call,ReferenceBook.modify,ha.lookup_slot hx,if_neg hzero,Order.terms,
      if_neg (UInt64.not_lt.mpr hq)]
    refine ⟨trivial,_,_,h',ha.maxOrders.trans hkeep.maxOrders.symm,ha.maxPrice.trans hkeep.maxPrice.symm,
      ha.retermed h hx (fun _ => Iff.rfl) hkeep hid' hterms,fun s p => ?_⟩
    simp only [hids,ha.queue]

/-- What can be observed of a book agrees with a reference book: lookups find exactly the live
ids with their terms, and each level, walked from either end, is the queue of the reference. -/
structure Agrees (b : LimitOrderBook) (r : ReferenceBook) : Prop where
  found_iff : ∀ id, (∃ x, b.getOrder id = some (some x)) ↔ id ∈ r.orders
  found : ∀ id x, b.getOrder id = some (some x) → (b.orderPool x).id = id ∧
    r.orders.lookup id = some ⟨(b.orderPool x).side,(b.orderPool x).price,(b.orderPool x).quantity⟩
  not_found : ∀ id, b.getOrder id = some none → id ∉ r.orders
  levels : ∀ side price, price.toNat < b.maxPrice → ∃ slots,
    Walks (fun i => (b.orderPool i).next) (b.level side price).head slots ∧
    Walks (fun i => (b.orderPool i).prev) (b.level side price).tail slots.reverse ∧
    slots.map (fun i => (b.orderPool i).id) = r.queue side price

theorem Refines.agrees (hR : Refines b r) : Agrees b r := by
  obtain ⟨free,queue,h,ha⟩ := hR
  constructor
  · intro id
    rw [ha.mem_iff]
    simp only [getOrder,h.mapFind_iff]
    rfl
  · intro id x hx
    obtain ⟨hon,rfl⟩ := h.mapFind_iff.mp hx
    exact ⟨rfl,ha.lookup_slot hon⟩
  · intro id hnone
    rw [ha.mem_iff]
    exact h.not_live hnone
  · intro side price _
    exact ⟨queue side price,(h.pool.level side price).forward,(h.pool.level side price).backward,
      (ha.queue side price).symm⟩

lemma refines_of_run {maxOrders maxPrice : ℕ} (hmax : 1 ≤ maxOrders) {calls : List BookCall}
    {answers : List Bool} (hrun : run LimitOrderBook.call (init maxOrders maxPrice) calls = some (answers,b)) :
    (runTotal ReferenceBook.call (ReferenceBook.init maxOrders maxPrice) calls).1 = answers ∧
    Refines b (runTotal ReferenceBook.call (ReferenceBook.init maxOrders maxPrice) calls).2 := by
  have hstep : ∀ b r c a b', Refines b r → LimitOrderBook.call b c = some (a,b') →
      (ReferenceBook.call r c).1 = a ∧ Refines b' (ReferenceBook.call r c).2 :=
    fun _ _ _ _ _ hR hcall => hR.call hcall
  exact run_simulation hstep (refines_init hmax maxPrice) hrun

/-- Over every sequence of calls that return, the book answers as the reference does and ends
in agreement with it. -/
theorem run_refines_reference (maxOrders maxPrice : ℕ) (hmax : 1 ≤ maxOrders) (calls : List BookCall)
    (answers : List Bool) (b : LimitOrderBook)
    (hrun : run LimitOrderBook.call (init maxOrders maxPrice) calls = some (answers,b)) :
    (runTotal ReferenceBook.call (ReferenceBook.init maxOrders maxPrice) calls).1 = answers ∧
    b.maxPrice = maxPrice ∧
    Agrees b (runTotal ReferenceBook.call (ReferenceBook.init maxOrders maxPrice) calls).2 := by
  obtain ⟨hanswers,hR⟩ := refines_of_run hmax hrun
  exact ⟨hanswers,(valid_of_run hmax hrun).maxPrice_eq,hR.agrees⟩

/-- Ids 1, 5 and 9 collide in a table of four; the third `add` is refused for want of a slot and
succeeds on the slot and the table entry that the cancel gives back. -/
theorem run_refines_reference_colliding : ∃ b,
    run LimitOrderBook.call (init 2 10) [.add 1 .buy 5 100,.add 5 .buy 5 50,.add 9 .sell 3 7,
      .modify 1 150,.cancel 5,.add 9 .sell 3 7] = some ([true,true,false,true,true,true],b) ∧
    b.maxPrice = 10 ∧
    Agrees b (runTotal ReferenceBook.call (ReferenceBook.init 2 10) [.add 1 .buy 5 100,
      .add 5 .buy 5 50,.add 9 .sell 3 7,.modify 1 150,.cancel 5,.add 9 .sell 3 7]).2 :=
  run_exists_of_answers rfl fun b hb => (run_refines_reference 2 10 (by decide) _ _ b hb).2

end TickToTrade.LimitOrderBook
