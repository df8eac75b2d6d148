import TickToTrade.OrderBook.Levels

/-! The pool invariant: every slot is on the free list, on one price level, or held by the call
in progress. Each primitive of the book moves one slot between these three places. -/
namespace TickToTrade
open Linked

/-- Replace one value of a function on levels. -/
def setAt {α : Type*} (f : Side → UInt64 → α) (side : Side) (price : UInt64) (v : α) :
    Side → UInt64 → α :=
  fun s p => if s = side ∧ p = price then v else f s p

@[simp] lemma setAt_self {α : Type*} (f : Side → UInt64 → α) (side : Side) (price : UInt64) (v : α) :
    setAt f side price v side price = v := by simp [setAt]

lemma setAt_of_ne {α : Type*} (f : Side → UInt64 → α) {side s : Side} {price p : UInt64} (v : α)
    (h : ¬ (s = side ∧ p = price)) : setAt f side price v s p = f s p := by simp [setAt,h]

@[simp] lemma setAt_setAt {α : Type*} (f : Side → UInt64 → α) (side : Side) (price : UInt64)
    (v w : α) : setAt (setAt f side price v) side price w = setAt f side price w := by
  funext s p
  by_cases hsp : s = side ∧ p = price <;> simp [setAt,hsp]

lemma setAt_eq_self {α : Type*} (f : Side → UInt64 → α) (side : Side) (price : UInt64) :
    setAt f side price (f side price) = f := by
  funext s p
  by_cases hsp : s = side ∧ p = price
  · obtain ⟨rfl,rfl⟩ := hsp
    exact setAt_self f s p _
  · exact setAt_of_ne f _ hsp

/-- A function of the values of all levels changes at one level too. -/
lemma map_setAt {α β : Type*} (g : α → β) (f : Side → UInt64 → α) (side : Side) (price : UInt64) (v : α) :
    (fun s p => g (setAt f side price v s p)) = setAt (fun s p => g (f s p)) side price (g v) := by
  funext s p
  exact apply_ite g (s = side ∧ p = price) v (f s p)

/-- What holds of the new value at its level, and of the old values at the others, holds everywhere. -/
lemma setAt_forall {α : Type*} {f : Side → UInt64 → α} {side : Side} {price : UInt64} {v : α}
    {P : Side → UInt64 → α → Prop} (hself : P side price v)
    (hother : ∀ s p, ¬ (s = side ∧ p = price) → P s p (f s p)) :
    ∀ s p, P s p (setAt f side price v s p) := by
  intro s p
  by_cases hsp : s = side ∧ p = price
  · obtain ⟨rfl,rfl⟩ := hsp
    rw [setAt_self]
    exact hself
  · rw [setAt_of_ne _ _ hsp]
    exact hother s p hsp

namespace LimitOrderBook

/-- The slot is on some price level. -/
def OnLevel (queue : Side → UInt64 → List ℕ) (i : ℕ) : Prop := ∃ s p, i ∈ queue s p

/-- Where the pool slots are: `free` lists the free list, `queue` the price levels, and `held`
is the slot taken out of both by the call in progress, if any. -/
structure Pool (b : LimitOrderBook) (free : List ℕ) (held : Option ℕ)
    (queue : Side → UInt64 → List ℕ) : Prop where
  free_walks : Walks (fun i => (b.orderPool i).next) b.freeListHead free
  free_nodup : free.Nodup
  level : ∀ s p, (b.links s p).Represents (queue s p)
  queue_nodup : ∀ s p, (queue s p).Nodup
  queue_mem : ∀ s p, ∀ i ∈ queue s p,
    (b.orderPool i).side = s ∧ (b.orderPool i).price = p ∧ p.toNat < b.maxPrice
  partition : ∀ i, i < b.maxOrders ↔ i ∈ free ∨ held = some i ∨ OnLevel queue i
  free_not_onLevel : ∀ i ∈ free, ¬ OnLevel queue i
  held_not_free : ∀ i, held = some i → i ∉ free
  held_not_onLevel : ∀ i, held = some i → ¬ OnLevel queue i

variable {b b' : LimitOrderBook} {free : List ℕ} {held : Option ℕ} {queue : Side → UInt64 → List ℕ}
  {x : ℕ}

/-- A slot on a level is on the level its own fields name. -/
lemma Pool.mem_own_queue (h : Pool b free held queue) (hx : OnLevel queue x) :
    x ∈ queue (b.orderPool x).side (b.orderPool x).price := by
  obtain ⟨s,p,hx⟩ := hx
  obtain ⟨rfl,rfl,_⟩ := h.queue_mem s p x hx
  exact hx

/-- Levels are disjoint, since the fields of a slot name one level. -/
lemma Pool.queue_disjoint (h : Pool b free held queue) {s s' : Side} {p p' : UInt64} {i : ℕ}
    (hi : i ∈ queue s p) (hne : ¬ (s' = s ∧ p' = p)) : i ∉ queue s' p' := by
  intro hi'
  obtain ⟨rfl,rfl,_⟩ := h.queue_mem s p i hi
  obtain ⟨hs,hp,_⟩ := h.queue_mem s' p' i hi'
  exact hne ⟨hs.symm,hp.symm⟩

lemma onLevel_setAt_append {side : Side} {price : UInt64} {i : ℕ} :
    OnLevel (setAt queue side price (queue side price ++ [x])) i ↔ i = x ∨ OnLevel queue i := by
  constructor
  · rintro ⟨s,p,hi⟩
    by_cases hsp : s = side ∧ p = price
    · obtain ⟨rfl,rfl⟩ := hsp
      rw [setAt_self,List.mem_append,List.mem_singleton] at hi
      exact hi.symm.imp_right fun hi => ⟨s,p,hi⟩
    · rw [setAt_of_ne _ _ hsp] at hi
      exact .inr ⟨s,p,hi⟩
  · rintro (rfl | ⟨s,p,hi⟩)
    · exact ⟨side,price,by simp⟩
    · by_cases hsp : s = side ∧ p = price
      · obtain ⟨rfl,rfl⟩ := hsp
        exact ⟨s,p,by simp [hi]⟩
      · exact ⟨s,p,by rwa [setAt_of_ne _ _ hsp]⟩

lemma Pool.onLevel_setAt_erase (h : Pool b free held queue) {side : Side} {price : UInt64} {i : ℕ}
    (hx : x ∈ queue side price) :
    OnLevel (setAt queue side price ((queue side price).erase x)) i ↔ i ≠ x ∧ OnLevel queue i := by
  constructor
  · rintro ⟨s,p,hi⟩
    by_cases hsp : s = side ∧ p = price
    · obtain ⟨rfl,rfl⟩ := hsp
      rw [setAt_self,(h.queue_nodup s p).mem_erase_iff] at hi
      exact ⟨hi.1,s,p,hi.2⟩
    · rw [setAt_of_ne _ _ hsp] at hi
      exact ⟨fun hix => h.queue_disjoint hx hsp (hix ▸ hi),s,p,hi⟩
  · rintro ⟨hne,s,p,hi⟩
    by_cases hsp : s = side ∧ p = price
    · obtain ⟨rfl,rfl⟩ := hsp
      exact ⟨s,p,by rw [setAt_self,(h.queue_nodup s p).mem_erase_iff]; exact ⟨hne,hi⟩⟩
    · exact ⟨s,p,by rwa [setAt_of_ne _ _ hsp]⟩

/-- Moving a slot to the tail of its level keeps the set of slots on levels. -/
lemma Pool.onLevel_setAt_erase_append (h : Pool b free held queue) {side : Side} {price : UInt64}
    {i : ℕ} (hx : x ∈ queue side price) :
    OnLevel (setAt queue side price ((queue side price).erase x ++ [x])) i ↔ OnLevel queue i := by
  have hmove : setAt queue side price ((queue side price).erase x ++ [x]) =
      setAt (setAt queue side price ((queue side price).erase x)) side price
        (setAt queue side price ((queue side price).erase x) side price ++ [x]) := by simp
  rw [hmove,onLevel_setAt_append,h.onLevel_setAt_erase hx]
  by_cases hi : i = x
  · subst hi
    simpa using ⟨side,price,hx⟩
  · simp [hi]

/-- The invariant only reads pointers, sides, prices and the dimensions. -/
theorem Pool.congr (h : Pool b free held queue) (hmaxOrders : b'.maxOrders = b.maxOrders)
    (hmaxPrice : b'.maxPrice = b.maxPrice) (hhead : b'.freeListHead = b.freeListHead)
    (hlinks : ∀ s p, b'.links s p = b.links s p)
    (hside : ∀ i, (b'.orderPool i).side = (b.orderPool i).side)
    (hprice : ∀ i, (b'.orderPool i).price = (b.orderPool i).price) : Pool b' free held queue where
  free_walks := by
    rw [hhead]
    exact h.free_walks.congr fun i _ => congrFun (congrArg Links.next (hlinks .buy 0)) i
  free_nodup := h.free_nodup
  level s p := by
    rw [hlinks s p]
    exact h.level s p
  queue_nodup := h.queue_nodup
  queue_mem s p i hi := by
    rw [hside,hprice,hmaxPrice]
    exact h.queue_mem s p i hi
  partition i := by
    rw [hmaxOrders]
    exact h.partition i
  free_not_onLevel := h.free_not_onLevel
  held_not_free := h.held_not_free
  held_not_onLevel := h.held_not_onLevel

/-- The free-list loop of the constructor links the slots in decreasing order. -/
lemma initFreeList_walks (n : ℕ) :
    Walks (fun i => ((initFreeList n).1 i).next) (initFreeList n).2 (List.range n).reverse := by
  induction n with
  | zero => rfl
  | succ n ih =>
    rw [List.range_succ,List.reverse_append,List.reverse_singleton,List.singleton_append]
    refine ⟨rfl,?_⟩
    have hnext : (fun i => ((initFreeList (n+1)).1 i).next) =
        Function.update (fun i => ((initFreeList n).1 i).next) n (initFreeList n).2 := by
      funext i
      by_cases hi : i = n <;> simp [initFreeList,hi]
    rw [hnext,Function.update_self]
    exact ih.update_of_not_mem (by simp) _

theorem pool_init (maxOrders maxPrice : ℕ) :
    Pool (init maxOrders maxPrice) (List.range maxOrders).reverse none (fun _ _ => []) where
  free_walks := initFreeList_walks maxOrders
  free_nodup := List.nodup_reverse.mpr List.nodup_range
  level s p := by cases s <;> constructor <;> rfl
  queue_nodup _ _ := List.nodup_nil
  queue_mem _ _ i hi := by simp at hi
  partition i := by simp [init,OnLevel]
  free_not_onLevel i _ := by simp [OnLevel]
  held_not_free i hi := by simp at hi
  held_not_onLevel i hi := by simp at hi

theorem Pool.allocate (h : Pool b (x :: free) none queue) :
    Pool { b with freeListHead := (b.orderPool x).next } free (some x) queue where
  free_walks := h.free_walks.2
  free_nodup := (List.nodup_cons.mp h.free_nodup).2
  level := h.level
  queue_nodup := h.queue_nodup
  queue_mem := h.queue_mem
  partition i := by
    rw [h.partition i]
    simp only [List.mem_cons,Option.some.injEq,reduceCtorEq,false_or,eq_comm (a := x)]
    tauto
  free_not_onLevel i hi := h.free_not_onLevel i (by simp [hi])
  held_not_free i hi := by
    obtain rfl := Option.some.inj hi
    exact (List.nodup_cons.mp h.free_nodup).1
  held_not_onLevel i hi := by
    obtain rfl := Option.some.inj hi
    exact h.free_not_onLevel x (by simp)

/-- Rewriting the held slot disturbs nothing. -/
theorem Pool.setOrder_held (h : Pool b free (some x) queue) (o : Order) :
    Pool (b.setOrder x o) free (some x) queue := by
  have hpool : ∀ i, i ∈ free ∨ OnLevel queue i → (b.setOrder x o).orderPool i = b.orderPool i := by
    rintro i hi
    refine Function.update_of_ne ?_ _ _
    rintro rfl
    exact hi.elim (h.held_not_free i rfl) (h.held_not_onLevel i rfl)
  exact
    { free_walks := h.free_walks.congr fun i hi => by rw [hpool i (.inl hi)]
      free_nodup := h.free_nodup
      level := fun s p => (h.level s p).congr (by simp [links]) (by simp [links]) fun i hi => by
        simp [links,hpool i (.inr ⟨s,p,hi⟩),-setOrder_orderPool]
      queue_nodup := h.queue_nodup
      queue_mem := fun s p i hi => by
        rw [hpool i (.inr ⟨s,p,hi⟩)]
        exact h.queue_mem s p i hi
      partition := h.partition
      free_not_onLevel := h.free_not_onLevel
      held_not_free := h.held_not_free
      held_not_onLevel := h.held_not_onLevel }

/-- Rewriting the pointers of the held slot and of one level, where a list of slots of that level is
left; the slots it adds or loses are the ones that were or are now held. -/
theorem Pool.relink (h : Pool b free held queue) {held' : Option ℕ} {side : Side} {price : UInt64} {l : List ℕ}
    (hsame : SameExcept side price b b')
    (hframe : ∀ y, held ≠ some y → y ∉ queue side price →
      (b'.orderPool y).next = (b.orderPool y).next ∧ (b'.orderPool y).prev = (b.orderPool y).prev)
    (hrep : (b'.links side price).Represents l) (hnodup : l.Nodup)
    (hmem : ∀ i ∈ l, (b.orderPool i).side = side ∧ (b.orderPool i).price = price ∧ price.toNat < b.maxPrice)
    (hslots : ∀ i, held = some i ∨ OnLevel queue i ↔ held' = some i ∨ OnLevel (setAt queue side price l) i)
    (hheld' : ∀ i, held' = some i → ¬ OnLevel (setAt queue side price l) i) :
    Pool b' free held' (setAt queue side price l) := by
  have hfree : ∀ i ∈ free, ¬ (held = some i ∨ OnLevel queue i) := by
    rintro i hi (hheld | hon)
    · exact h.held_not_free i hheld hi
    · exact h.free_not_onLevel i hi hon
  exact
    { free_walks := by
        rw [hsame.freeListHead]
        refine h.free_walks.congr fun i hi => (hframe i ?_ ?_).1
        · exact fun hheld => hfree i hi (.inl hheld)
        · exact fun hq => hfree i hi (.inr ⟨side,price,hq⟩)
      free_nodup := h.free_nodup
      level := by
        apply setAt_forall
        · exact hrep
        · intro s p hsp
          refine (h.level s p).congr ?_ ?_ fun i hi => hframe i ?_ fun hq => ?_
          · simp only [links,hsame.level s p hsp]
          · simp only [links,hsame.level s p hsp]
          · exact fun hheld => h.held_not_onLevel i hheld ⟨s,p,hi⟩
          · exact h.queue_disjoint hq hsp hi
      queue_nodup := by
        refine setAt_forall (P := fun _ _ (l : List ℕ) => l.Nodup) hnodup ?_
        exact fun s p _ => h.queue_nodup s p
      queue_mem := by
        simp only [side_eq_of_terms (hsame.terms _),price_eq_of_terms (hsame.terms _),hsame.maxPrice]
        refine setAt_forall (P := fun s p (l : List ℕ) => ∀ i ∈ l,
          (b.orderPool i).side = s ∧ (b.orderPool i).price = p ∧ p.toNat < b.maxPrice) hmem ?_
        exact fun s p _ => h.queue_mem s p
      partition := fun i => by rw [hsame.maxOrders,h.partition i,hslots i]
      free_not_onLevel := fun i hi hon => hfree i hi ((hslots i).mpr (.inr hon))
      held_not_free := fun i hi hf => hfree i hf ((hslots i).mpr (.inl hi))
      held_not_onLevel := hheld' }

theorem Pool.insertOrder (h : Pool b free (some x) queue)
    (hprice : (b.orderPool x).price.toNat < b.maxPrice) :
    Pool (b.insertOrder x) free none (setAt queue (b.orderPool x).side (b.orderPool x).price
      (queue (b.orderPool x).side (b.orderPool x).price ++ [x])) := by
  set side := (b.orderPool x).side with hside
  set price := (b.orderPool x).price with hp
  have hrep := h.level side price
  have hx : x ∉ queue side price := fun hx => h.held_not_onLevel x rfl ⟨side,price,hx⟩
  have hlinks := b.links_insertOrder x
  refine h.relink (b.insertOrder_sameExcept x) ?_ ?_ ?_ ?_ ?_ ?_
  · intro y hyx hy
    have hpush := Links.pushBack_frame hrep (x := x) (fun hy => hyx (congrArg some hy.symm)) hy
    rw [← hlinks] at hpush
    exact hpush
  · rw [hlinks]
    exact hrep.pushBack (h.queue_nodup _ _) hx
  · exact List.Nodup.append (h.queue_nodup _ _) (List.nodup_singleton x) (by simpa using hx)
  · intro i hi
    rw [List.mem_append,List.mem_singleton] at hi
    rcases hi with hi | rfl
    · exact h.queue_mem _ _ i hi
    · exact ⟨rfl,rfl,hprice⟩
  · intro i
    rw [onLevel_setAt_append]
    simp only [Option.some.injEq,reduceCtorEq,false_or,eq_comm (a := x)]
  · intro i hi
    simp at hi

theorem Pool.removeOrder (h : Pool b free none queue) (hx : OnLevel queue x) :
    Pool (b.removeOrder x) free (some x) (setAt queue (b.orderPool x).side (b.orderPool x).price
      ((queue (b.orderPool x).side (b.orderPool x).price).erase x)) := by
  have hmem := h.mem_own_queue hx
  set side := (b.orderPool x).side with hside
  set price := (b.orderPool x).price with hp
  have hlinks := b.links_removeOrder x
  obtain ⟨l₁,l₂,hl⟩ := List.append_of_mem hmem
  have hnodup := h.queue_nodup side price
  have hrep := h.level side price
  have herase : (queue side price).erase x = l₁ ++ l₂ := by
    rw [hl] at hnodup ⊢
    have hx₁ : x ∉ l₁ := fun hx₁ => (List.nodup_append.mp hnodup).2.2 x hx₁ x (by simp) rfl
    rw [List.erase_append_right _ hx₁,List.erase_cons_head]
  rw [hl] at hrep hnodup
  refine h.relink (b.removeOrder_sameExcept x) ?_ ?_ ?_ ?_ ?_ ?_
  · intro y _ hy
    rw [hl] at hy
    have hun := Links.unlink_frame hrep hnodup hy
    rw [← hlinks] at hun
    exact hun
  · rw [hlinks,herase]
    exact hrep.unlink hnodup
  · exact (h.queue_nodup _ _).erase x
  · exact fun i hi => h.queue_mem _ _ i (List.mem_of_mem_erase hi)
  · intro i
    rw [h.onLevel_setAt_erase hmem]
    by_cases hi : i = x
    · simp [hi,hx]
    · simp [hi,eq_comm (a := x)]
  · intro i hi
    obtain rfl := Option.some.inj hi
    rw [h.onLevel_setAt_erase hmem]
    exact fun hon => hon.1 rfl

theorem Pool.deallocate (h : Pool b free (some x) queue) :
    Pool (b.deallocateOrder x) (x :: free) none queue := by
  have h' := h.setOrder_held { b.orderPool x with next := b.freeListHead }
  exact
    { free_walks := ⟨rfl,by simpa [deallocateOrder,setNext] using h'.free_walks⟩
      free_nodup := List.nodup_cons.mpr ⟨h.held_not_free x rfl,h.free_nodup⟩
      level := h'.level
      queue_nodup := h.queue_nodup
      queue_mem := h'.queue_mem
      partition := fun i => by
        change i < b.maxOrders ↔ _
        rw [h.partition i]
        simp only [List.mem_cons,Option.some.injEq,reduceCtorEq,false_or,eq_comm (a := x)]
        tauto
      free_not_onLevel := fun i hi => by
        rcases List.mem_cons.mp hi with rfl | hi
        · exact h.held_not_onLevel i rfl
        · exact h.free_not_onLevel i hi
      held_not_free := fun i hi => by simp at hi
      held_not_onLevel := fun i hi => by simp at hi }

end LimitOrderBook
end TickToTrade
