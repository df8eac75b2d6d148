import TickToTrade.OrderBook.Effect

/-! Pointers that callers keep. From the `add` of an id until the call that deletes it, the pool slot
`get_order` returns for it stays the same and belongs to no other id. -/
namespace TickToTrade

/-- The calls that delete the order with the id: `cancel`, and `modify` to zero. -/
def BookCall.Deletes (id : UInt64) (c : BookCall) : Prop := c = .cancel id ∨ c = .modify id 0

/-- The quantity of the order with the id after the call, when `q` was its quantity before. -/
def BookCall.requantify (id q : UInt64) : BookCall → UInt64
  | .add .. => q
  | .cancel _ => q
  | .modify id' newQuantity => if id' = id then newQuantity else q

/-- The quantity after all the calls: that of the last `modify` of the id, if there is one. -/
def quantityAfter (id q : UInt64) (calls : List BookCall) : UInt64 :=
  calls.foldl (fun q c => c.requantify id q) q

namespace LimitOrderBook
open Linked Probing

/-- The pointer `x` to the order with the id: lookups of the id return it and lookups of other ids
do not, and the order behind it has the id and the given terms. -/
structure Handle (b : LimitOrderBook) (id : UInt64) (x : ℕ) (t : Terms) : Prop where
  found : b.getOrder id = some (some x)
  id_eq : (b.orderPool x).id = id
  terms_eq : (b.orderPool x).terms = t
  alone : ∀ id', id' ≠ id → b.getOrder id' ≠ some (some x)

variable {b b' : LimitOrderBook} {free free' : List ℕ} {queue queue' : Side → UInt64 → List ℕ}
  {id : UInt64} {x : ℕ} {t : Terms} {c : BookCall} {a : Bool}

lemma Inv.handle (h : Inv b free queue) (hx : OnLevel queue x) (hid : (b.orderPool x).id = id)
    (hterms : (b.orderPool x).terms = t) : Handle b id x t where
  found := h.mapFind_iff.mpr ⟨hx,hid⟩
  id_eq := hid
  terms_eq := hterms
  alone _ hne hfound := hne ((h.mapFind_iff.mp hfound).2.symm.trans hid)

lemma requantify_of_not_live (hx : OnLevel queue x) (hid : (b.orderPool x).id = id) {id' : UInt64}
    (hc : c = .cancel id' ∨ ∃ q, c = .modify id' q) (habsent : ¬ Live b queue id') (q : UInt64) :
    c.requantify id q = q := by
  have hne : id' ≠ id := by
    rintro rfl
    exact habsent ⟨x,hx,hid⟩
  rcases hc with rfl | ⟨q',rfl⟩
  · rfl
  · exact if_neg hne

lemma Inv.terms_of_modified (h : Inv b free queue) {id' q : UInt64} {y : ℕ} (hx : OnLevel queue x)
    (hid : (b.orderPool x).id = id) (hterms : (b.orderPool x).terms = t) (hy : OnLevel queue y)
    (hid' : (b.orderPool y).id = id') (hkeep : KeepsOthers b b' y) (hidy : (b'.orderPool y).id = id')
    (htermsy : (b'.orderPool y).terms = ⟨(b.orderPool y).side,(b.orderPool y).price,q⟩) :
    (b'.orderPool x).id = id ∧ (b'.orderPool x).terms =
      { t with quantity := (BookCall.modify id' q).requantify id t.quantity } := by
  by_cases hxy : x = y
  · subst hxy
    obtain rfl : id' = id := hid'.symm.trans hid
    rw [htermsy,← hterms]
    simp [hidy,BookCall.requantify,Order.terms]
  · have hne : id' ≠ id := fun hne => hxy (h.id_injective hx hy (hid.trans (hne ▸ hid'.symm)))
    rw [BookCall.requantify,if_neg hne]
    exact ⟨(hkeep.id x hxy).trans hid,(hkeep.terms x hxy).trans hterms⟩

/-- A call that does not delete the order leaves its slot on a level, under the same id, side and
price, and changes the quantity only if it is a `modify` of that id. -/
lemma Effect.keeps_slot (h : Inv b free queue) (heffect : Effect b free queue c a b' free' queue')
    (hx : OnLevel queue x) (hid : (b.orderPool x).id = id) (hterms : (b.orderPool x).terms = t)
    (hc : ¬ c.Deletes id) :
    OnLevel queue' x ∧ (b'.orderPool x).id = id ∧
      (b'.orderPool x).terms = { t with quantity := c.requantify id t.quantity } := by
  cases heffect with
  | refused => exact ⟨hx,hid,hterms⟩
  | @added _ _ _ _ _ y _ _ hfree _ _ hkeep =>
    have hxy : x ≠ y := by
      rintro rfl
      exact h.pool.free_not_onLevel x (by simp [hfree]) hx
    exact ⟨onLevel_setAt_append.mpr (.inr hx),(hkeep.id x hxy).trans hid,(hkeep.terms x hxy).trans hterms⟩
  | unknown hc' habsent =>
    rw [requantify_of_not_live hx hid hc' habsent]
    exact ⟨hx,hid,hterms⟩
  | @removed _ id' _ y _ hc' hy hid' hkeep =>
    have hne : id' ≠ id := fun hne => hc (hne ▸ hc')
    have hxy : x ≠ y := by
      rintro rfl
      exact hne (hid'.symm.trans hid)
    have hq : c.requantify id t.quantity = t.quantity := by
      rcases hc' with rfl | rfl
      · rfl
      · exact if_neg hne
    rw [hq]
    refine ⟨?_,(hkeep.id x hxy).trans hid,(hkeep.terms x hxy).trans hterms⟩
    exact (h.pool.onLevel_setAt_erase (h.pool.mem_own_queue hy)).mpr ⟨hxy,hx⟩
  | @increased id' q _ y hy hid' _ hkeep hidy htermsy =>
    exact ⟨(h.pool.onLevel_setAt_erase_append (h.pool.mem_own_queue hy)).mpr hx,
      h.terms_of_modified hx hid hterms hy hid' hkeep hidy htermsy⟩
  | reduced hy hid' _ _ hkeep hidy htermsy =>
    exact ⟨hx,h.terms_of_modified hx hid hterms hy hid' hkeep hidy htermsy⟩

lemma Handle.call (h : Inv b free queue) (hx : Handle b id x t) (hc : ¬ c.Deletes id)
    (hcall : b.call c = some (a,b')) :
    Handle b' id x { t with quantity := c.requantify id t.quantity } := by
  obtain ⟨free',queue',heffect,h'⟩ := h.call_effect hcall
  have hon : OnLevel queue x := (h.mapFind_iff.mp hx.found).1
  obtain ⟨hon',hid',hterms'⟩ := heffect.keeps_slot h hon hx.id_eq hx.terms_eq hc
  exact h'.handle hon' hid' hterms'

lemma Inv.handle_of_add (h : Inv b free queue) {side : Side} {price quantity : UInt64}
    (hadd : b.add id side price quantity = some (true,b')) : ∃ x, Handle b' id x ⟨side,price,quantity⟩ := by
  obtain ⟨free',queue',heffect,h'⟩ := h.call_effect (c := .add id side price quantity) hadd
  cases heffect with
  | @added _ _ _ _ _ x _ _ _ _ _ _ hid hterms =>
    exact ⟨x,h'.handle (onLevel_setAt_append.mpr (.inl rfl)) hid hterms⟩
  | removed hc => simp at hc

/-- From the successful `add` of an id, wherever the book was then, the pointer to its order stays
valid over every run of calls that does not delete the order. -/
theorem run_handle_stable (maxOrders maxPrice : ℕ) (hmax : 1 ≤ maxOrders) (before : List BookCall)
    (answers : List Bool) (b₀ b₁ : LimitOrderBook) (id : UInt64) (side : Side) (price quantity : UInt64)
    (hbefore : run LimitOrderBook.call (init maxOrders maxPrice) before = some (answers,b₀))
    (hadd : b₀.add id side price quantity = some (true,b₁)) :
    ∃ x, ∀ calls answers' b, (∀ c ∈ calls, ¬ c.Deletes id) →
      run LimitOrderBook.call b₁ calls = some (answers',b) →
      Handle b id x ⟨side,price,quantityAfter id quantity calls⟩ := by
  obtain ⟨free,queue,h⟩ := (valid_of_run hmax hbefore).inv
  obtain ⟨x,hx⟩ := h.handle_of_add hadd
  have hcall₀ : b₀.call (.add id side price quantity) = some (true,b₁) := hadd
  have hreach := run_concat hbefore hcall₀
  refine ⟨x,fun calls answers' b hkeep hrun => ?_⟩
  refine run_induction (I := fun pre _ u => Handle u id x ⟨side,price,quantityAfter id quantity pre⟩) hx ?_ hrun
  rintro pre c post before' u a u' rfl hpre hI hcall
  obtain ⟨free',queue',h'⟩ := (valid_of_run hmax
    (run_append_eq_some.mpr ⟨b₁,_,before',hreach,hpre,rfl⟩)).inv
  rw [quantityAfter,List.foldl_concat]
  exact hI.call h' (hkeep c (by simp)) hcall

/-- The order is moved to the tail and reduced while a neighbour is deleted and its slot reused. -/
theorem run_handle_stable_moved : ∃ b₀ b₁ b x,
    run LimitOrderBook.call (init 3 10) [.add 1 .buy 5 10] = some ([true],b₀) ∧
    b₀.add 2 .buy 5 20 = some (true,b₁) ∧
    run LimitOrderBook.call b₁ [.add 3 .buy 5 30,.modify 2 40,.cancel 1,.add 4 .sell 7 5,.modify 2 15] =
      some ([true,true,true,true,true],b) ∧
    Handle b 2 x ⟨.buy,5,15⟩ := by
  obtain ⟨x,hx⟩ := run_handle_stable 3 10 (by decide) [.add 1 .buy 5 10] [true] _ _ 2 .buy 5 20 rfl rfl
  refine ⟨_,_,_,x,rfl,rfl,rfl,?_⟩
  exact hx [.add 3 .buy 5 30,.modify 2 40,.cancel 1,.add 4 .sell 7 5,.modify 2 15] _ _
    (by simp [BookCall.Deletes]) rfl

end LimitOrderBook
end TickToTrade
