import TickToTrade.OrderBook.Effect

/-! When the calls of the book return. Tombstones are never turned back into null entries, so the
`while (true)` probes lose the only entries that stop a search for an absent id. -/
namespace TickToTrade.LimitOrderBook
open Linked Probing

/-- Some live entry of the order map is keyed by the id. -/
def HoldsId (b : LimitOrderBook) (id : UInt64) : Prop :=
  ∃ i < b.mapCapacity, (b.orderMap i).key = id ∧ ∃ x, (b.orderMap i).value = .order x

/-- Some entry of the order map has never been used. -/
def HasNull (b : LimitOrderBook) : Prop := ∃ i < b.mapCapacity, (b.orderMap i).value = .null

/-- The state before the call lets its probe loops end. -/
def Answerable (b : LimitOrderBook) : BookCall → Prop
  | .add id _ price _ => b.maxPrice ≤ price.toNat ∨ b.HoldsId id ∨ b.HasNull
  | .cancel id => b.HoldsId id ∨ b.HasNull
  | .modify id _ => b.HoldsId id ∨ b.HasNull

lemma holdsId_iff (b : LimitOrderBook) (id : UInt64) :
    b.HoldsId id ↔ ∃ x, Maps b.mapCapacity b.table id x := by
  simp only [HoldsId,Maps,table_eq_live_iff]
  constructor
  · rintro ⟨i,hi,rfl,x,hx⟩
    exact ⟨x,i,hi,by rw [← hx]⟩
  · rintro ⟨x,i,hi,hentry⟩
    exact ⟨i,hi,by rw [hentry],x,by rw [hentry]⟩

variable {b : LimitOrderBook} {free : List ℕ} {queue : Side → UInt64 → List ℕ}

/-- The search for an id ends exactly when the id is live or a null entry is left. -/
theorem Inv.mapFind_returns_iff (h : Inv b free queue) (id : UInt64) :
    (b.mapFind id).isSome ↔ b.HoldsId id ∨ b.HasNull := by
  rw [LimitOrderBook.mapFind_isSome_iff h.table_wf h.mapCapacity_pos,holdsId_iff]
  simp only [HasNull,table_eq_empty_iff]

/-- Once the search has returned, nothing else in a call can fail to. -/
theorem Inv.call_returns_iff (h : Inv b free queue) (c : BookCall) :
    (b.call c).isSome ↔ b.Answerable c := by
  cases c with
  | add id side price quantity =>
    simp only [call,Answerable,← h.mapFind_returns_iff]
    by_cases hprice : b.maxPrice ≤ price.toNat
    · simp [add_of_price hprice,hprice]
    · have hprice' := Nat.lt_of_not_le hprice
      simp only [hprice,false_or]
      cases hfind : b.mapFind id with
      | none => simp [add,hprice,hfind]
      | some found =>
        cases found with
        | some x => simp [add_of_live hprice' hfind]
        | none =>
          cases free with
          | nil => simp [h.add_of_full hprice' hfind]
          | cons x free =>
            obtain ⟨b₁,_,heq,_⟩ := h.add_fresh side quantity hprice' hfind
            simp [heq]
  | cancel id =>
    simp only [call,Answerable,← h.mapFind_returns_iff]
    cases hfind : b.mapFind id with
    | none => simp [cancel,hfind]
    | some found =>
      cases found with
      | none => simp [cancel_of_absent hfind]
      | some x =>
        obtain ⟨b₁,_,heq,_⟩ := h.cancel_live hfind
        simp [heq]
  | modify id q =>
    simp only [call,Answerable,← h.mapFind_returns_iff]
    cases hfind : b.mapFind id with
    | none => simp [modify,hfind]
    | some found =>
      cases found with
      | none => simp [modify_of_absent hfind]
      | some x =>
        by_cases hzero : q = 0
        · obtain ⟨b₁,_,heq,_⟩ := h.cancel_live hfind
          simp [hzero,modify_zero hfind,heq]
        · by_cases hq : (b.orderPool x).quantity < q
          · obtain ⟨b₁,heq,_⟩ := h.modify_increase hfind hq
            simp [heq]
          · obtain ⟨b₁,heq,_⟩ := h.modify_decrease hfind hzero (UInt64.not_lt.mp hq)
            simp [heq]

/-- A run returns exactly when each call finds its id live or a null entry left, and in every
state it reaches a lookup returns under the same condition. -/
theorem run_returns_iff_answerable (maxOrders maxPrice : ℕ) (hmax : 1 ≤ maxOrders)
    (calls : List BookCall) :
    ((run LimitOrderBook.call (init maxOrders maxPrice) calls).isSome ↔
      ∀ pre c post, calls = pre ++ c :: post → ∀ answers b,
        run LimitOrderBook.call (init maxOrders maxPrice) pre = some (answers,b) → b.Answerable c) ∧
    ∀ answers b, run LimitOrderBook.call (init maxOrders maxPrice) calls = some (answers,b) →
      ∀ id, (b.getOrder id).isSome ↔ b.HoldsId id ∨ b.HasNull := by
  constructor
  · rw [run_isSome_iff]
    constructor
    · intro hall pre c post hcalls answers b hb
      obtain ⟨free,queue,h⟩ := (valid_of_run hmax hb).inv
      exact (h.call_returns_iff c).mp (hall pre c post hcalls answers b hb)
    · intro hall pre c post hcalls answers b hb
      obtain ⟨free,queue,h⟩ := (valid_of_run hmax hb).inv
      exact (h.call_returns_iff c).mpr (hall pre c post hcalls answers b hb)
  · intro answers b hb id
    obtain ⟨free,queue,h⟩ := (valid_of_run hmax hb).inv
    exact h.mapFind_returns_iff id

/-- Two ids come and go in a book of capacity one; each of the four calls is answerable. -/
theorem run_returns_iff_answerable_two_cancels :
    (run LimitOrderBook.call (init 1 10)
      [.add 0 .buy 5 100,.cancel 0,.add 1 .buy 5 100,.cancel 1]).isSome ∧
    ∀ pre c post, [.add 0 .buy 5 100,.cancel 0,.add 1 .buy 5 100,.cancel 1] = pre ++ c :: post →
      ∀ answers b, run LimitOrderBook.call (init 1 10) pre = some (answers,b) → b.Answerable c :=
  ⟨rfl,(run_returns_iff_answerable 1 10 (by decide) _).1.mp rfl⟩

/-- One order at a time in a book of capacity one: after two ids have come and gone both entries
are tombstones, and the search for a third id goes round for ever. -/
theorem probe_never_ends_after_two_cancels : ∃ b,
    run LimitOrderBook.call (init 1 10)
      [.add 0 .buy 5 100,.cancel 0,.add 1 .buy 5 100,.cancel 1] = some ([true,true,true,true],b) ∧
    (∀ fuel, probeLoop b.mapCapacity (b.findBody 2) fuel (UInt64.toNat 2 % b.mapCapacity) = none) ∧
    b.getOrder 2 = none ∧ b.add 2 .buy 5 100 = none ∧ b.cancel 2 = none ∧ b.modify 2 50 = none := by
  refine ⟨_,rfl,fun fuel => ?_,rfl,rfl,rfl,rfl⟩
  exact probeLoop_diverges (by decide) (by rfl) fuel

end TickToTrade.LimitOrderBook
