import TickToTrade.OrderBook.Refinement
import Mathlib.Order.Bounds.Basic

/-! Time priority over whole histories. Each slot on a level is stamped with the position of the call
that put it at the tail; a queue is always sorted by these stamps. -/
namespace TickToTrade
open Linked Probing LimitOrderBook

/-- `i` stands before `j` on the level, walked from its head. -/
def Precedes (lob : LimitOrderBook) (side : Side) (price i j : UInt64) : Prop :=
  ∃ slots, Walks (fun x => (lob.orderPool x).next) (lob.level side price).head slots ∧
    [i,j].Sublist (slots.map fun x => (lob.orderPool x).id)

/-- In a strictly sorted list two members stand in the order of their keys. -/
lemma pair_sublist_iff_lt {α : Type*} {key : α → ℕ} {l : List α}
    (hsorted : l.Pairwise fun x y => key x < key y) {x y : α} (hx : x ∈ l) (hy : y ∈ l) :
    [x,y].Sublist l ↔ key x < key y := by
  constructor
  · intro hsub
    exact List.pairwise_iff_forall_sublist.mp hsorted hsub
  · intro hlt
    induction l with
    | nil => simp at hx
    | cons z l ih =>
      obtain ⟨hz,hl⟩ := List.pairwise_cons.mp hsorted
      rcases List.mem_cons.mp hx with rfl | hxl
      · have hyl : y ∈ l := by
          rcases List.mem_cons.mp hy with rfl | hyl
          · omega
          · exact hyl
        exact List.cons_sublist_cons.mpr (List.singleton_sublist.mpr hyl)
      · rcases List.mem_cons.mp hy with rfl | hyl
        · have hyx := hz x hxl
          omega
        · exact (ih hl hxl hyl).trans (List.sublist_cons_self z l)

namespace LimitOrderBook

/-- A live order with the id is on the level. -/
def Queued (b : LimitOrderBook) (side : Side) (price id : UInt64) : Prop :=
  ∃ x, b.getOrder id = some (some x) ∧ (b.orderPool x).side = side ∧ (b.orderPool x).price = price

/-- The call, answered `a`, gives the order with the id its place at the tail: a successful `add`,
or a successful `modify` to a strictly larger quantity. -/
def Prioritizes (b : LimitOrderBook) (id : UInt64) : BookCall → Bool → Prop
  | .add id' _ _ _, a => id' = id ∧ a = true
  | .cancel _, _ => False
  | .modify id' q, a => id' = id ∧ a = true ∧
      ∃ x, b.getOrder id = some (some x) ∧ (b.orderPool x).quantity < q

/-- The positions in the run at which the id got its place at the tail. -/
def priorityEvents (maxOrders maxPrice : ℕ) (calls : List BookCall) (id : UInt64) : Set ℕ :=
  {n | ∃ pre c post answers b a b', calls = pre ++ c :: post ∧ pre.length = n ∧
    run LimitOrderBook.call (init maxOrders maxPrice) pre = some (answers,b) ∧
    b.call c = some (a,b') ∧ b.Prioritizes id c a}

section Events
variable {maxOrders maxPrice : ℕ} {calls : List BookCall} {answers : List Bool} {b b' : LimitOrderBook}
  {c : BookCall} {a : Bool}

lemma lt_length_of_mem_priorityEvents {id : UInt64} {n : ℕ}
    (h : n ∈ priorityEvents maxOrders maxPrice calls id) : n < calls.length := by
  obtain ⟨pre,c,post,_,_,_,_,rfl,rfl,_⟩ := h
  simp

/-- One more call adds its own position, if it is a priority event. -/
lemma mem_priorityEvents_concat
    (hrun : run LimitOrderBook.call (init maxOrders maxPrice) calls = some (answers,b))
    (hcall : b.call c = some (a,b')) (id : UInt64) (n : ℕ) :
    n ∈ priorityEvents maxOrders maxPrice (calls ++ [c]) id ↔
      n ∈ priorityEvents maxOrders maxPrice calls id ∨ n = calls.length ∧ b.Prioritizes id c a := by
  constructor
  · rintro ⟨pre,c',post,answers',u,a',u',hsplit,rfl,hu,hc',hp⟩
    rcases List.eq_nil_or_concat post with rfl | ⟨post,d,rfl⟩
    · obtain ⟨rfl,hlast⟩ := List.append_inj' hsplit rfl
      obtain rfl : c = c' := by simpa using hlast
      obtain ⟨_,rfl⟩ := Prod.mk.inj (Option.some.inj (hrun.symm.trans hu))
      obtain ⟨rfl,_⟩ := Prod.mk.inj (Option.some.inj (hcall.symm.trans hc'))
      exact .inr ⟨rfl,hp⟩
    · have hsplit' : calls ++ [c] = (pre ++ c' :: post) ++ [d] := by simpa using hsplit
      obtain ⟨rfl,_⟩ := List.append_inj' hsplit' rfl
      exact .inl ⟨pre,c',post,answers',u,a',u',rfl,rfl,hu,hc',hp⟩
  · rintro (⟨pre,c',post,answers',u,a',u',rfl,rfl,hu,hc',hp⟩ | ⟨rfl,hp⟩)
    · exact ⟨pre,c',post ++ [c],answers',u,a',u',by simp,rfl,hu,hc',hp⟩
    · exact ⟨calls,c,[],answers,b,a,b',rfl,rfl,hrun,hcall,hp⟩

end Events

/-- Every slot on a level carries the position of the latest event of its id, among `n` calls, and
the queues are sorted by it. -/
structure Stamped (b : LimitOrderBook) (queue : Side → UInt64 → List ℕ) (events : UInt64 → Set ℕ)
    (n : ℕ) (stamp : ℕ → ℕ) : Prop where
  bound : ∀ id, ∀ k ∈ events id, k < n
  latest : ∀ x, OnLevel queue x → IsGreatest (events (b.orderPool x).id) (stamp x)
  sorted : ∀ s p, (queue s p).Pairwise fun x y => stamp x < stamp y

section Step
variable {b b' : LimitOrderBook} {free free' : List ℕ} {queue queue' : Side → UInt64 → List ℕ}
  {c : BookCall} {a : Bool} {events events' : UInt64 → Set ℕ} {n : ℕ} {stamp : ℕ → ℕ}
  (hevents : ∀ id k, k ∈ events' id ↔ k ∈ events id ∨ k = n ∧ b.Prioritizes id c a)
include hevents

lemma events_eq_of_not_prioritized {id : UInt64} (h : ¬ b.Prioritizes id c a) : events' id = events id := by
  ext k
  rw [hevents]
  simp [h]

lemma Stamped.bound_succ (h : Stamped b queue events n stamp) : ∀ id, ∀ k ∈ events' id, k < n + 1 := by
  intro id k hk
  rcases (hevents id k).mp hk with hk | ⟨rfl,_⟩
  · exact Nat.lt_succ_of_lt (h.bound id k hk)
  · exact Nat.lt_succ_self k

/-- A call that prioritizes no order on a level and moves none keeps the stamps. -/
lemma Stamped.unmoved (h : Stamped b queue events n stamp)
    (hkept : ∀ x, OnLevel queue' x → OnLevel queue x ∧ (b'.orderPool x).id = (b.orderPool x).id ∧
      ¬ b.Prioritizes (b.orderPool x).id c a)
    (hsub : ∀ s p, (queue' s p).Sublist (queue s p)) : Stamped b' queue' events' (n+1) stamp where
  bound := h.bound_succ hevents
  latest x hx := by
    obtain ⟨hon,hid,hnot⟩ := hkept x hx
    rw [hid,events_eq_of_not_prioritized hevents hnot]
    exact h.latest x hon
  sorted s p := (h.sorted s p).sublist (hsub s p)

/-- A call that puts the slot `x` at the tail of a level and prioritizes only its id stamps `x`. -/
lemma Stamped.moved (h : Stamped b queue events n stamp) {side : Side} {price : UInt64} {x : ℕ}
    {l : List ℕ} (hl : l.Sublist (queue side price)) (hother : ∀ s p, x ∈ queue s p → s = side ∧ p = price)
    (hxl : x ∉ l) (hx : b.Prioritizes (b'.orderPool x).id c a)
    (hkept : ∀ y, y ≠ x → OnLevel queue y → (b'.orderPool y).id = (b.orderPool y).id ∧
      ¬ b.Prioritizes (b.orderPool y).id c a) :
    Stamped b' (setAt queue side price (l ++ [x])) events' (n+1) (Function.update stamp x n) := by
  have hold : ∀ y, OnLevel queue y → stamp y < n := fun y hy => h.bound _ _ (h.latest y hy).1
  have hstamp : ∀ y, y ≠ x → Function.update stamp x n y = stamp y :=
    fun y hy => Function.update_of_ne hy n stamp
  refine ⟨h.bound_succ hevents,fun y hy => ?_,?_⟩
  · by_cases hyx : y = x
    · subst hyx
      rw [Function.update_self]
      exact ⟨(hevents _ n).mpr (.inr ⟨rfl,hx⟩),fun k hk => Nat.le_of_lt_succ (h.bound_succ hevents _ k hk)⟩
    · have hon : OnLevel queue y := by
        obtain ⟨s,p,hy⟩ := hy
        by_cases hsp : s = side ∧ p = price
        · obtain ⟨rfl,rfl⟩ := hsp
          rw [setAt_self,List.mem_append,List.mem_singleton,or_iff_left hyx] at hy
          exact ⟨s,p,hl.subset hy⟩
        · rw [setAt_of_ne _ _ hsp] at hy
          exact ⟨s,p,hy⟩
      obtain ⟨hid,hnot⟩ := hkept y hyx hon
      rw [hstamp y hyx,hid,events_eq_of_not_prioritized hevents hnot]
      exact h.latest y hon
  · refine setAt_forall (P := fun _ _ (l : List ℕ) =>
      l.Pairwise fun y z => Function.update stamp x n y < Function.update stamp x n z) ?_ ?_
    · rw [List.pairwise_append]
      refine ⟨((h.sorted side price).sublist hl).imp_of_mem ?_,List.pairwise_singleton _ _,?_⟩
      · intro y z hy hz hyz
        rwa [hstamp y (ne_of_mem_of_not_mem hy hxl),hstamp z (ne_of_mem_of_not_mem hz hxl)]
      · intro y hy z hz
        obtain rfl := List.mem_singleton.mp hz
        rw [Function.update_self,hstamp y (ne_of_mem_of_not_mem hy hxl)]
        exact hold y ⟨side,price,hl.subset hy⟩
    · intro s p hsp
      refine (h.sorted s p).imp_of_mem fun {y z} hy hz hyz => ?_
      have hne : ∀ w ∈ queue s p, w ≠ x := by
        rintro w hw rfl
        exact hsp (hother s p hw)
      rwa [hstamp y (hne y hy),hstamp z (hne z hz)]

theorem Stamped.step (h : Stamped b queue events n stamp) (hinv : Inv b free queue)
    (heffect : Effect b free queue c a b' free' queue') : ∃ stamp', Stamped b' queue' events' (n+1) stamp' := by
  cases heffect with
  | refused =>
    refine ⟨stamp,h.unmoved hevents (fun x hx => ⟨hx,rfl,?_⟩) fun _ _ => List.Sublist.refl _⟩
    simp [Prioritizes]
  | @added id side price quantity _ x _ j hfree _ habsent hkeep hid =>
    have hx : ¬ OnLevel queue x := hinv.pool.free_not_onLevel x (by simp [hfree])
    refine ⟨_,h.moved hevents (List.Sublist.refl _) ?_ ?_ ⟨hid.symm,rfl⟩ ?_⟩
    · intro s p hmem
      exact absurd ⟨s,p,hmem⟩ hx
    · exact fun hmem => hx ⟨side,price,hmem⟩
    · intro y hyx hy
      refine ⟨hkeep.id y hyx,?_⟩
      rintro ⟨hid',_⟩
      exact habsent ⟨y,hy,hid'.symm⟩
  | unknown hc =>
    refine ⟨stamp,h.unmoved hevents (fun x hx => ⟨hx,rfl,?_⟩) fun _ _ => List.Sublist.refl _⟩
    rcases hc with rfl | ⟨q,rfl⟩
    · simp [Prioritizes]
    · simp [Prioritizes]
  | @removed _ id _ x j hc hx hid hkeep =>
    have hmem := hinv.pool.mem_own_queue hx
    refine ⟨stamp,h.unmoved hevents (fun y hy => ?_) ?_⟩
    · obtain ⟨hyx,hon⟩ := (hinv.pool.onLevel_setAt_erase hmem).mp hy
      refine ⟨hon,hkeep.id y hyx,?_⟩
      rcases hc with rfl | rfl
      · simp [Prioritizes]
      · simp [Prioritizes]
    · exact setAt_forall (P := fun s p (l : List ℕ) => l.Sublist (queue s p)) List.erase_sublist
        fun _ _ _ => List.Sublist.refl _
  | @increased id q _ x hx hid hq hkeep hid' =>
    have hmem := hinv.pool.mem_own_queue hx
    have hfound : b.getOrder id = some (some x) := hinv.mapFind_iff.mpr ⟨hx,hid⟩
    refine ⟨_,h.moved hevents List.erase_sublist ?_ (hinv.pool.queue_nodup _ _).not_mem_erase ?_ ?_⟩
    · intro s p hsp
      obtain ⟨rfl,rfl,_⟩ := hinv.pool.queue_mem s p x hsp
      exact ⟨rfl,rfl⟩
    · rw [hid']
      exact ⟨rfl,rfl,x,hfound,hq⟩
    · intro y hyx hy
      refine ⟨hkeep.id y hyx,?_⟩
      rintro ⟨hidy,_⟩
      exact hyx (hinv.id_injective hy hx (hidy.symm.trans hid.symm))
  | @reduced id q _ x hx hid hzero hq hkeep hid' =>
    refine ⟨stamp,h.unmoved hevents (fun y hy => ?_) fun _ _ => List.Sublist.refl _⟩
    refine ⟨hy,keepsOthers_id hkeep (hid'.trans hid.symm) y,?_⟩
    rintro ⟨hidy,_,z,hz,hlt⟩
    obtain ⟨hzon,hidz⟩ := hinv.mapFind_iff.mp hz
    obtain rfl : z = x := hinv.id_injective hzon hx (hidz.trans (hidy.symm.trans hid.symm))
    exact UInt64.not_lt.mpr hq hlt

end Step

section Runs
variable {maxOrders maxPrice : ℕ} {calls : List BookCall} {answers : List Bool} {b : LimitOrderBook}
  {free : List ℕ} {queue : Side → UInt64 → List ℕ}

theorem run_stamped (hmax : 1 ≤ maxOrders)
    (hrun : run LimitOrderBook.call (init maxOrders maxPrice) calls = some (answers,b)) :
    ∃ free queue stamp, Inv b free queue ∧
      Stamped b queue (priorityEvents maxOrders maxPrice calls) calls.length stamp := by
  refine run_induction (I := fun pre _ u => ∃ free queue stamp, Inv u free queue ∧
    Stamped u queue (priorityEvents maxOrders maxPrice pre) pre.length stamp) ?_ ?_ hrun
  · refine ⟨_,_,fun _ => 0,inv_init hmax maxPrice,fun id k => lt_length_of_mem_priorityEvents,?_,?_⟩
    · simp [OnLevel]
    · exact fun _ _ => List.Pairwise.nil
  · rintro pre c post before u a u' _ hpre ⟨free,queue,stamp,h,hstamped⟩ hcall
    obtain ⟨free',queue',heffect,h'⟩ := h.call_effect hcall
    obtain ⟨stamp',hstamped'⟩ := hstamped.step (mem_priorityEvents_concat hpre hcall) h heffect
    refine ⟨free',queue',stamp',h',?_⟩
    rwa [List.length_append,List.length_singleton]

lemma Inv.precedes_iff (h : Inv b free queue) {side : Side} {price i j : UInt64} :
    Precedes b side price i j ↔ [i,j].Sublist ((queue side price).map fun x => (b.orderPool x).id) := by
  have hwalk : Walks (fun x => (b.orderPool x).next) (b.level side price).head (queue side price) :=
    (h.pool.level side price).forward
  constructor
  · rintro ⟨slots,hslots,hij⟩
    rwa [hslots.unique hwalk] at hij
  · intro hij
    exact ⟨_,hwalk,hij⟩

lemma Inv.queued_iff (h : Inv b free queue) {side : Side} {price id : UInt64} :
    b.Queued side price id ↔ ∃ x ∈ queue side price, (b.orderPool x).id = id := by
  constructor
  · rintro ⟨x,hx,rfl,rfl⟩
    obtain ⟨hon,hid⟩ := h.mapFind_iff.mp hx
    exact ⟨x,h.pool.mem_own_queue hon,hid⟩
  · rintro ⟨x,hx,hid⟩
    obtain ⟨hside,hprice,_⟩ := h.pool.queue_mem side price x hx
    exact ⟨x,h.mapFind_iff.mpr ⟨⟨side,price,hx⟩,hid⟩,hside,hprice⟩

/-- Two slots stand in their queue as their ids do. -/
lemma Inv.pair_sublist_map_iff (h : Inv b free queue) {side : Side} {price : UInt64} {x y : ℕ}
    (hx : x ∈ queue side price) (hy : y ∈ queue side price) :
    [(b.orderPool x).id,(b.orderPool y).id].Sublist ((queue side price).map fun i => (b.orderPool i).id) ↔
      [x,y].Sublist (queue side price) := by
  constructor
  · intro hsub
    obtain ⟨l,hl,heq⟩ := List.sublist_map_iff.mp hsub
    obtain ⟨x',y',rfl⟩ : ∃ x' y', l = [x',y'] := by
      have hlength := congrArg List.length heq
      rw [List.length_map] at hlength
      exact List.length_eq_two.mp hlength.symm
    simp only [List.map_cons,List.map_nil,List.cons.injEq,and_true] at heq
    obtain rfl := h.id_injective ⟨side,price,hx⟩ ⟨side,price,hl.subset (by simp)⟩ heq.1
    obtain rfl := h.id_injective ⟨side,price,hy⟩ ⟨side,price,hl.subset (by simp)⟩ heq.2
    exact hl
  · intro hsub
    exact hsub.map fun i => (b.orderPool i).id

/-- Two live orders of one level have their latest events, and stand in the order of these. -/
lemma run_precedes_iff (hmax : 1 ≤ maxOrders)
    (hrun : run LimitOrderBook.call (init maxOrders maxPrice) calls = some (answers,b))
    {side : Side} {price i j : UInt64} (hi : b.Queued side price i) (hj : b.Queued side price j) :
    ∃ n m, IsGreatest (priorityEvents maxOrders maxPrice calls i) n ∧
      IsGreatest (priorityEvents maxOrders maxPrice calls j) m ∧ (Precedes b side price i j ↔ n < m) := by
  obtain ⟨free,queue,stamp,h,hstamped⟩ := run_stamped hmax hrun
  obtain ⟨x,hx,rfl⟩ := h.queued_iff.mp hi
  obtain ⟨y,hy,rfl⟩ := h.queued_iff.mp hj
  refine ⟨stamp x,stamp y,hstamped.latest x ⟨side,price,hx⟩,hstamped.latest y ⟨side,price,hy⟩,?_⟩
  rw [h.precedes_iff,h.pair_sublist_map_iff hx hy]
  exact pair_sublist_iff_lt (hstamped.sorted side price) hx hy

end Runs

/-- At every moment of every run two live orders of one level stand in the order of their latest
priority events, and a call that is no priority event of either leaves their order as it is. -/
theorem run_time_priority (maxOrders maxPrice : ℕ) (hmax : 1 ≤ maxOrders) (calls : List BookCall)
    (answers : List Bool) (b : LimitOrderBook)
    (hrun : run LimitOrderBook.call (init maxOrders maxPrice) calls = some (answers,b))
    (side : Side) (price i j : UInt64) (hi : b.Queued side price i) (hj : b.Queued side price j) :
    (∃ n m, IsGreatest (priorityEvents maxOrders maxPrice calls i) n ∧
      IsGreatest (priorityEvents maxOrders maxPrice calls j) m ∧ (Precedes b side price i j ↔ n < m)) ∧
    ∀ c a b', b.call c = some (a,b') → ¬ b.Prioritizes i c a → ¬ b.Prioritizes j c a →
      b'.Queued side price i → b'.Queued side price j →
      (Precedes b' side price i j ↔ Precedes b side price i j) := by
  have hnow := run_precedes_iff hmax hrun hi hj
  refine ⟨hnow,fun c a b' hcall hci hcj hi' hj' => ?_⟩
  obtain ⟨n,m,hn,hm,hnm⟩ := hnow
  obtain ⟨n',m',hn',hm',hnm'⟩ := run_precedes_iff hmax (run_concat hrun hcall) hi' hj'
  have hevents := mem_priorityEvents_concat hrun hcall
  rw [events_eq_of_not_prioritized hevents hci] at hn'
  rw [events_eq_of_not_prioritized hevents hcj] at hm'
  rw [hnm,hnm',hn.unique hn',hm.unique hm']

/-- Order 1 has been moved behind order 3 by an increase; reducing order 3 does not move it. -/
theorem run_time_priority_requeued : ∃ b,
    run LimitOrderBook.call (init 4 10) [.add 1 .buy 5 10,.add 2 .buy 5 20,.add 3 .buy 5 30,.modify 1 15,
      .cancel 2,.modify 3 25] = some ([true,true,true,true,true,true],b) ∧
    ∃ n m, IsGreatest (priorityEvents 4 10 [.add 1 .buy 5 10,.add 2 .buy 5 20,.add 3 .buy 5 30,
        .modify 1 15,.cancel 2,.modify 3 25] 3) n ∧
      IsGreatest (priorityEvents 4 10 [.add 1 .buy 5 10,.add 2 .buy 5 20,.add 3 .buy 5 30,
        .modify 1 15,.cancel 2,.modify 3 25] 1) m ∧ (Precedes b .buy 5 3 1 ↔ n < m) := by
  refine run_exists_of_answers (by decide +kernel) fun b hb => ?_
  have hslots := of_run_all (P := fun b : LimitOrderBook =>
    (b.getOrder 3 = some (some 1) ∧ (b.orderPool 1).side = .buy ∧ (b.orderPool 1).price = 5) ∧
    b.getOrder 1 = some (some 3) ∧ (b.orderPool 3).side = .buy ∧ (b.orderPool 3).price = 5) (by decide +kernel) hb
  exact (run_time_priority 4 10 (by decide) _ _ b hb .buy 5 3 1 ⟨1,hslots.1⟩ ⟨3,hslots.2⟩).1

end LimitOrderBook
end TickToTrade
