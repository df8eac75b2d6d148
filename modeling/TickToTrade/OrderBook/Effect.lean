import TickToTrade.OrderBook.Calls
import TickToTrade.Library.Run

/-! Everything a returning call of the book can do, as one relation. Whatever has to hold over
whole runs is proved from this case analysis and never unfolds the calls again. -/
namespace TickToTrade.LimitOrderBook
open Linked Probing

/-- Some slot on a level carries the id. -/
def Live (b : LimitOrderBook) (queue : Side → UInt64 → List ℕ) (id : UInt64) : Prop :=
  ∃ i, OnLevel queue i ∧ (b.orderPool i).id = id

/-- Queues after the slot has left its level. -/
def dropped (b : LimitOrderBook) (queue : Side → UInt64 → List ℕ) (x : ℕ) : Side → UInt64 → List ℕ :=
  setAt queue (b.orderPool x).side (b.orderPool x).price
    ((queue (b.orderPool x).side (b.orderPool x).price).erase x)

/-- Queues after the slot has moved to the tail of its level. -/
def requeued (b : LimitOrderBook) (queue : Side → UInt64 → List ℕ) (x : ℕ) : Side → UInt64 → List ℕ :=
  setAt queue (b.orderPool x).side (b.orderPool x).price
    ((queue (b.orderPool x).side (b.orderPool x).price).erase x ++ [x])

/-- `Effect b free queue c r b' free' queue'`: the call `c` answers `r`, leaves `b'`, and the
slots are then where `free'` and `queue'` say. -/
inductive Effect (b : LimitOrderBook) (free : List ℕ) (queue : Side → UInt64 → List ℕ) :
    BookCall → Bool → LimitOrderBook → List ℕ → (Side → UInt64 → List ℕ) → Prop
  | refused {id side price quantity}
      (why : b.maxPrice ≤ price.toNat ∨ Live b queue id ∨ free = []) :
      Effect b free queue (.add id side price quantity) false b free queue
  | added {id side price quantity b' x free' j} (hfree : free = x :: free')
      (hprice : price.toNat < b.maxPrice) (habsent : ¬ Live b queue id)
      (hkeep : KeepsOthers b b' x) (hid : (b'.orderPool x).id = id)
      (hterms : (b'.orderPool x).terms = ⟨side,price,quantity⟩)
      (hj : j < b.mapCapacity) (hslot : ∀ k v, b.table j ≠ .live k v)
      (htable : b'.table = Function.update b.table j (.live id x)) :
      Effect b free queue (.add id side price quantity) true b' free'
        (setAt queue side price (queue side price ++ [x]))
  | unknown {c id} (hc : c = .cancel id ∨ ∃ q, c = .modify id q) (habsent : ¬ Live b queue id) :
      Effect b free queue c false b free queue
  | removed {c id b' x j} (hc : c = .cancel id ∨ c = .modify id 0) (hx : OnLevel queue x)
      (hid : (b.orderPool x).id = id) (hkeep : KeepsOthers b b' x)
      (hj : j < b.mapCapacity) (hslot : b.table j = .live id x)
      (htable : b'.table = Function.update b.table j .tomb) :
      Effect b free queue c true b' (x :: free) (dropped b queue x)
  | increased {id q b' x} (hx : OnLevel queue x) (hid : (b.orderPool x).id = id)
      (hq : (b.orderPool x).quantity < q) (hkeep : KeepsOthers b b' x)
      (hid' : (b'.orderPool x).id = id)
      (hterms : (b'.orderPool x).terms = ⟨(b.orderPool x).side,(b.orderPool x).price,q⟩)
      (htable : b'.table = b.table) :
      Effect b free queue (.modify id q) true b' free (requeued b queue x)
  | reduced {id q b' x} (hx : OnLevel queue x) (hid : (b.orderPool x).id = id)
      (hzero : q ≠ 0) (hq : q ≤ (b.orderPool x).quantity) (hkeep : KeepsOthers b b' x)
      (hid' : (b'.orderPool x).id = id)
      (hterms : (b'.orderPool x).terms = ⟨(b.orderPool x).side,(b.orderPool x).price,q⟩)
      (htable : b'.table = b.table) :
      Effect b free queue (.modify id q) true b' free queue

variable {b b' : LimitOrderBook} {free : List ℕ} {queue : Side → UInt64 → List ℕ} {id : UInt64} {r : Bool}

lemma Inv.not_live (h : Inv b free queue) (hfind : b.mapFind id = some none) : ¬ Live b queue id :=
  fun ⟨_,hi,hid⟩ => h.absent_of_mapFind hfind hi hid

lemma Inv.cancel_effect (h : Inv b free queue) {c : BookCall} (hc : c = .cancel id ∨ c = .modify id 0)
    (hcall : b.cancel id = some (r,b')) :
    ∃ free' queue', Effect b free queue c r b' free' queue' ∧ Inv b' free' queue' := by
  cases hfind : b.mapFind id with
  | none => simp [cancel,hfind] at hcall
  | some found =>
    cases found with
    | none =>
      rw [cancel_of_absent hfind] at hcall
      obtain ⟨rfl,rfl⟩ := Prod.mk.inj (Option.some.inj hcall)
      refine ⟨free,queue,.unknown ?_ (h.not_live hfind),h⟩
      exact hc.imp_right fun hc => ⟨0,hc⟩
    | some x =>
      obtain ⟨hx,hid⟩ := h.mapFind_iff.mp hfind
      obtain ⟨b₁,j,heq,hinv,hkeep,hj,hslot,htable⟩ := h.cancel_live hfind
      rw [heq] at hcall
      obtain ⟨rfl,rfl⟩ := Prod.mk.inj (Option.some.inj hcall)
      exact ⟨_,_,.removed hc hx hid hkeep hj hslot htable,hinv⟩

/-- The inversion of a returning call. -/
theorem Inv.call_effect (h : Inv b free queue) {c : BookCall} (hcall : b.call c = some (r,b')) :
    ∃ free' queue', Effect b free queue c r b' free' queue' ∧ Inv b' free' queue' := by
  cases c with
  | add id side price quantity =>
    simp only [call] at hcall
    by_cases hprice : b.maxPrice ≤ price.toNat
    · rw [add_of_price hprice] at hcall
      obtain ⟨rfl,rfl⟩ := Prod.mk.inj (Option.some.inj hcall)
      exact ⟨_,_,.refused (.inl hprice),h⟩
    · have hprice' := Nat.lt_of_not_le hprice
      cases hfind : b.mapFind id with
      | none => simp [add,hprice,hfind] at hcall
      | some found =>
        cases found with
        | some x =>
          rw [add_of_live hprice' hfind] at hcall
          obtain ⟨rfl,rfl⟩ := Prod.mk.inj (Option.some.inj hcall)
          exact ⟨_,_,.refused (.inr (.inl ⟨x,h.mapFind_iff.mp hfind⟩)),h⟩
        | none =>
          cases free with
          | nil =>
            rw [h.add_of_full hprice' hfind] at hcall
            obtain ⟨rfl,rfl⟩ := Prod.mk.inj (Option.some.inj hcall)
            exact ⟨_,_,.refused (.inr (.inr rfl)),h⟩
          | cons x free =>
            obtain ⟨b₁,j,heq,hinv,hkeep,hid,hterms,hj,hslot,htable⟩ :=
              h.add_fresh side quantity hprice' hfind
            rw [heq] at hcall
            obtain ⟨rfl,rfl⟩ := Prod.mk.inj (Option.some.inj hcall)
            exact ⟨_,_,.added rfl hprice' (h.not_live hfind) hkeep hid hterms hj hslot htable,hinv⟩
  | cancel id => exact h.cancel_effect (.inl rfl) hcall
  | modify id q =>
    simp only [call] at hcall
    cases hfind : b.mapFind id with
    | none => simp [modify,hfind] at hcall
    | some found =>
      cases found with
      | none =>
        rw [modify_of_absent hfind] at hcall
        obtain ⟨rfl,rfl⟩ := Prod.mk.inj (Option.some.inj hcall)
        exact ⟨_,_,.unknown (.inr ⟨q,rfl⟩) (h.not_live hfind),h⟩
      | some x =>
        obtain ⟨hx,hid⟩ := h.mapFind_iff.mp hfind
        by_cases hzero : q = 0
        · subst hzero
          rw [modify_zero hfind] at hcall
          exact h.cancel_effect (.inr rfl) hcall
        · by_cases hq : (b.orderPool x).quantity < q
          · obtain ⟨b₁,heq,hinv,hkeep,hid',hterms,htable⟩ := h.modify_increase hfind hq
            rw [heq] at hcall
            obtain ⟨rfl,rfl⟩ := Prod.mk.inj (Option.some.inj hcall)
            exact ⟨_,_,.increased hx hid hq hkeep hid' hterms htable,hinv⟩
          · obtain ⟨b₁,heq,hinv,hkeep,hid',hterms,htable⟩ :=
              h.modify_decrease hfind hzero (UInt64.not_lt.mp hq)
            rw [heq] at hcall
            obtain ⟨rfl,rfl⟩ := Prod.mk.inj (Option.some.inj hcall)
            exact ⟨_,_,.reduced hx hid hzero (UInt64.not_lt.mp hq) hkeep hid' hterms htable,hinv⟩

/-- A book of the given dimensions whose slots all have a place. -/
structure Valid (maxOrders maxPrice : ℕ) (b : LimitOrderBook) : Prop where
  maxOrders_eq : b.maxOrders = maxOrders
  maxPrice_eq : b.maxPrice = maxPrice
  inv : ∃ free queue, Inv b free queue

lemma Effect.dimensions {c : BookCall} {free' : List ℕ} {queue' : Side → UInt64 → List ℕ}
    (h : Effect b free queue c r b' free' queue') :
    b'.maxOrders = b.maxOrders ∧ b'.maxPrice = b.maxPrice ∧ b'.mapCapacity = b.mapCapacity := by
  cases h with
  | refused => exact ⟨rfl,rfl,rfl⟩
  | added _ _ _ hkeep => exact ⟨hkeep.maxOrders,hkeep.maxPrice,hkeep.mapCapacity⟩
  | unknown => exact ⟨rfl,rfl,rfl⟩
  | removed _ _ _ hkeep => exact ⟨hkeep.maxOrders,hkeep.maxPrice,hkeep.mapCapacity⟩
  | increased _ _ _ hkeep => exact ⟨hkeep.maxOrders,hkeep.maxPrice,hkeep.mapCapacity⟩
  | reduced _ _ _ _ hkeep => exact ⟨hkeep.maxOrders,hkeep.maxPrice,hkeep.mapCapacity⟩

theorem valid_of_run {maxOrders maxPrice : ℕ} (hmax : 1 ≤ maxOrders) {calls : List BookCall}
    {answers : List Bool} {b : LimitOrderBook}
    (hrun : run LimitOrderBook.call (init maxOrders maxPrice) calls = some (answers,b)) :
    Valid maxOrders maxPrice b := by
  have hstep : ∀ b c a b', Valid maxOrders maxPrice b → LimitOrderBook.call b c = some (a,b') →
      Valid maxOrders maxPrice b' := by
    rintro b c a b' ⟨rfl,rfl,free,queue,h⟩ hcall
    obtain ⟨free',queue',heffect,h'⟩ := h.call_effect hcall
    exact ⟨heffect.dimensions.1,heffect.dimensions.2.1,free',queue',h'⟩
  exact run_invariant hstep ⟨rfl,rfl,_,_,inv_init hmax maxPrice⟩ hrun

end TickToTrade.LimitOrderBook
