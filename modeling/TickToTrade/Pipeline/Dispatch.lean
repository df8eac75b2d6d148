import TickToTrade.Itch.Parser
import TickToTrade.OrderBook.Refinement
import TickToTrade.OrderBook.Termination

/-! The two consumer loops that apply market-data messages to a book: the production loop of
`Main` and the loop of the ITCH-to-LOB pipeline. A consumer folds its switch over the messages it
pops; a book call that does not return ends the run. -/
namespace TickToTrade
open LimitOrderBook

/-- The switch of the strategy thread in `Main`. -/
def mainDispatch (lob : LimitOrderBook) (msg : InternalMessage) : Option LimitOrderBook :=
  if msg.type = 'A'.toUInt8 then
    (lob.add msg.id msg.side msg.price msg.quantity).map Prod.snd
  else if msg.type = 'D'.toUInt8 then (lob.cancel msg.id).map Prod.snd
  else if msg.type = 'X'.toUInt8 then (lob.modify msg.id msg.quantity).map Prod.snd
  else some lob

/-- The types that take shares off an order in the pipeline. -/
def InternalMessage.Reduces (msg : InternalMessage) : Prop :=
  msg.type = 'E'.toUInt8 ∨ msg.type = 'C'.toUInt8 ∨ msg.type = 'X'.toUInt8

instance (msg : InternalMessage) : Decidable msg.Reduces :=
  inferInstanceAs (Decidable (_ ∨ _ ∨ _))

/-- The switch of the matching thread in the pipeline. -/
def pipelineDispatch (lob : LimitOrderBook) (msg : InternalMessage) : Option LimitOrderBook :=
  if msg.type = 'A'.toUInt8 then
    (lob.add msg.id msg.side msg.price msg.quantity).map Prod.snd
  else if msg.Reduces then do
    match ← lob.getOrder msg.id with
    | none => some lob
    | some order =>
      if (lob.orderPool order).quantity ≤ msg.quantity then (lob.cancel msg.id).map Prod.snd
      else (lob.modify msg.id ((lob.orderPool order).quantity - msg.quantity)).map Prod.snd
  else if msg.type = 'D'.toUInt8 then (lob.cancel msg.id).map Prod.snd
  else some lob

/-- A consumer loop over the messages it has popped. -/
def consume (dispatch : LimitOrderBook → InternalMessage → Option LimitOrderBook)
    (lob : LimitOrderBook) (msgs : List InternalMessage) : Option LimitOrderBook :=
  msgs.foldlM dispatch lob

/-- What the pipeline does to a reference book. -/
def ReferenceBook.apply (r : ReferenceBook) (msg : InternalMessage) : ReferenceBook :=
  if msg.type = 'A'.toUInt8 then (r.add msg.id msg.side msg.price msg.quantity).2
  else if msg.Reduces then
    match r.orders.lookup msg.id with
    | none => r
    | some t =>
      if t.quantity ≤ msg.quantity then (r.cancel msg.id).2
      else (r.modify msg.id (t.quantity - msg.quantity)).2
  else if msg.type = 'D'.toUInt8 then (r.cancel msg.id).2
  else r

variable {lob lob' : LimitOrderBook} {r : ReferenceBook} {msg : InternalMessage}

lemma InternalMessage.Reduces.type_ne (h : msg.Reduces) :
    msg.type ≠ 'A'.toUInt8 ∧ msg.type ≠ 'D'.toUInt8 := by
  rcases h with h | h | h <;> rw [h] <;> decide

lemma pipelineDispatch_of_reduces (h : msg.Reduces) : pipelineDispatch lob msg = (do
    match ← lob.getOrder msg.id with
    | none => some lob
    | some order =>
      if (lob.orderPool order).quantity ≤ msg.quantity then (lob.cancel msg.id).map Prod.snd
      else (lob.modify msg.id ((lob.orderPool order).quantity - msg.quantity)).map Prod.snd) := by
  rw [pipelineDispatch,if_neg h.type_ne.1,if_pos h]

lemma LimitOrderBook.Refines.call_snd (h : Refines lob r) {c : BookCall}
    (hcall : (lob.call c).map Prod.snd = some lob') : Refines lob' (r.call c).2 := by
  obtain ⟨⟨a,b⟩,hab,rfl⟩ := Option.map_eq_some_iff.mp hcall
  exact (h.call hab).2

lemma LimitOrderBook.Refines.lookup_of_getOrder (h : Refines lob r) {id : UInt64} {x : ℕ}
    (hfind : lob.getOrder id = some (some x)) : r.orders.lookup id = some (lob.orderPool x).terms :=
  (h.agrees.found id x hfind).2

lemma LimitOrderBook.Refines.lookup_none_of_getOrder (h : Refines lob r) {id : UInt64}
    (hfind : lob.getOrder id = some none) : r.orders.lookup id = none :=
  Finmap.lookup_eq_none.mpr (h.agrees.not_found id hfind)

/-- The pipeline's loop on the book is matched by its effect on the reference. -/
theorem LimitOrderBook.Refines.apply (h : Refines lob r)
    (hstep : pipelineDispatch lob msg = some lob') : Refines lob' (r.apply msg) := by
  unfold pipelineDispatch at hstep
  unfold ReferenceBook.apply
  split at hstep
  · rename_i hadd
    rw [if_pos hadd]
    exact h.call_snd (c := .add msg.id msg.side msg.price msg.quantity) hstep
  · rename_i hadd
    rw [if_neg hadd]
    split at hstep
    · rename_i hreduces
      rw [if_pos hreduces]
      cases hfind : lob.getOrder msg.id with
      | none => simp [hfind] at hstep
      | some found =>
        rw [hfind] at hstep
        cases found with
        | none =>
          obtain rfl : lob = lob' := by simpa using hstep
          rw [h.lookup_none_of_getOrder hfind]
          exact h
        | some x =>
          rw [h.lookup_of_getOrder hfind]
          simp only [Option.bind_eq_bind,Option.bind_some] at hstep
          change Refines lob' (if (lob.orderPool x).quantity ≤ msg.quantity then _ else _)
          split at hstep
          · rename_i hle
            rw [if_pos hle]
            exact h.call_snd (c := .cancel msg.id) hstep
          · rename_i hle
            rw [if_neg hle]
            exact h.call_snd (c := .modify msg.id _) hstep
    · rename_i hreduces
      rw [if_neg hreduces]
      split at hstep
      · rename_i hdelete
        rw [if_pos hdelete]
        exact h.call_snd (c := .cancel msg.id) hstep
      · rename_i hdelete
        obtain rfl : lob = lob' := by simpa using hstep
        rw [if_neg hdelete]
        exact h

lemma toNat_sub_of_not_le {q m : UInt64} (h : ¬ q ≤ m) : (q - m).toNat = q.toNat - m.toNat := by
  rw [UInt64.toNat_sub_of_le]
  rw [UInt64.le_iff_toNat_le] at h ⊢
  omega

lemma sub_ne_zero_of_not_le {q m : UInt64} (h : ¬ q ≤ m) : q - m ≠ 0 := by
  intro hzero
  have hleft := toNat_sub_of_not_le h
  rw [hzero,UInt64.toNat_zero] at hleft
  rw [UInt64.le_iff_toNat_le] at h
  omega

/-- What is left of an order after a reduction. -/
def Terms.reduced (t : Terms) (shares : UInt64) : Option Terms :=
  if t.quantity ≤ shares then none else some { t with quantity := t.quantity - shares }

lemma Terms.reduced_eq_none_iff {t : Terms} {shares : UInt64} :
    t.reduced shares = none ↔ t.quantity ≤ shares := by
  unfold Terms.reduced
  split <;> simp_all

/-- The reduction is exact on natural numbers and leaves side and price alone. -/
lemma Terms.reduced_eq_some_iff {t t' : Terms} {shares : UInt64} : t.reduced shares = some t' ↔
    shares.toNat < t.quantity.toNat ∧ t'.side = t.side ∧ t'.price = t.price ∧
      t'.quantity.toNat + shares.toNat = t.quantity.toNat := by
  unfold Terms.reduced
  split
  · rename_i hle
    rw [UInt64.le_iff_toNat_le] at hle
    simp only [reduceCtorEq,false_iff]
    omega
  · rename_i hle
    have hsub := toNat_sub_of_not_le hle
    rw [UInt64.le_iff_toNat_le] at hle
    constructor
    · intro h
      obtain rfl := Option.some.inj h
      exact ⟨by omega,rfl,rfl,by simp only [hsub]; omega⟩
    · rintro ⟨_,hside,hprice,hq⟩
      have hquantity : t.quantity - shares = t'.quantity := by
        apply UInt64.toNat_inj.mp
        omega
      rw [hquantity,← hside,← hprice]

theorem ReferenceBook.lookup_apply_of_reduces (r : ReferenceBook) (h : msg.Reduces) (k : UInt64) :
    (r.apply msg).orders.lookup k =
      if k = msg.id then (r.orders.lookup k).bind fun t => t.reduced msg.quantity
      else r.orders.lookup k := by
  rw [ReferenceBook.apply,if_neg h.type_ne.1,if_pos h]
  split
  · rename_i hnone
    split
    · rename_i hk
      subst hk
      simp [hnone]
    · rfl
  · rename_i t hsome
    by_cases hle : t.quantity ≤ msg.quantity
    · rw [if_pos hle,lookup_cancel]
      split
      · rename_i hk
        subst hk
        simp [hsome,Terms.reduced,hle]
      · rfl
    · have hne := sub_ne_zero_of_not_le hle
      rw [if_neg hle,lookup_modify]
      split
      · rename_i hk
        subst hk
        rw [hsome,Option.bind_some,Option.bind_some,Terms.reduced,if_neg hle]
      · rfl

theorem ReferenceBook.lookup_apply_of_deletes (r : ReferenceBook) (h : msg.type = 'D'.toUInt8) (k : UInt64) :
    (r.apply msg).orders.lookup k = if k = msg.id then none else r.orders.lookup k := by
  have hA : msg.type ≠ 'A'.toUInt8 := by
    rw [h]
    decide
  have hreduces : ¬ msg.Reduces := fun hreduces => hreduces.type_ne.2 h
  rw [ReferenceBook.apply,if_neg hA,if_neg hreduces,if_pos h,lookup_cancel]

/-- The pipeline's switch makes at most one call that can change the book. -/
lemma pipelineDispatch_call (h : pipelineDispatch lob msg = some lob') :
    lob' = lob ∨ ∃ c a, lob.call c = some (a,lob') := by
  have hcall : ∀ c : BookCall, (lob.call c).map Prod.snd = some lob' → ∃ c a, lob.call c = some (a,lob') := by
    intro c hc
    obtain ⟨⟨a,b⟩,hab,rfl⟩ := Option.map_eq_some_iff.mp hc
    exact ⟨c,a,hab⟩
  unfold pipelineDispatch at h
  split at h
  · exact .inr (hcall (.add msg.id msg.side msg.price msg.quantity) h)
  · split at h
    · obtain ⟨found,_,h⟩ := Option.bind_eq_some_iff.mp h
      cases found with
      | none => exact .inl (Option.some.inj h).symm
      | some x =>
        dsimp only at h
        split at h
        · exact .inr (hcall (.cancel msg.id) h)
        · exact .inr (hcall (.modify msg.id _) h)
    · split at h
      · exact .inr (hcall (.cancel msg.id) h)
      · exact .inl (Option.some.inj h).symm

/-- While the table has a null entry, the pipeline's switch returns. -/
lemma pipelineDispatch_isSome {free : List ℕ} {queue : Side → UInt64 → List ℕ} (hinv : Inv lob free queue)
    (hnull : lob.HasNull) (msg : InternalMessage) : (pipelineDispatch lob msg).isSome := by
  have hcall : ∀ c : BookCall, ((lob.call c).map Prod.snd).isSome := by
    intro c
    rw [Option.isSome_map,hinv.call_returns_iff]
    cases c <;> simp [Answerable,hnull]
  have hfind : (lob.getOrder msg.id).isSome := (hinv.mapFind_returns_iff msg.id).mpr (.inr hnull)
  unfold pipelineDispatch
  split
  · exact hcall (.add msg.id msg.side msg.price msg.quantity)
  · split
    · obtain ⟨found,hfound⟩ := Option.isSome_iff_exists.mp hfind
      simp only [hfound,Option.bind_eq_bind,Option.bind_some]
      cases found with
      | none => rfl
      | some x =>
        dsimp only
        split
        · exact hcall (.cancel msg.id)
        · exact hcall (.modify msg.id _)
    · split
      · exact hcall (.cancel msg.id)
      · rfl

lemma ReferenceBook.apply_dimensions (r : ReferenceBook) (msg : InternalMessage) :
    (r.apply msg).maxOrders = r.maxOrders ∧ (r.apply msg).maxPrice = r.maxPrice := by
  unfold ReferenceBook.apply
  split
  · exact r.call_dimensions (.add msg.id msg.side msg.price msg.quantity)
  · split
    · split
      · exact ⟨rfl,rfl⟩
      · split
        · exact r.call_dimensions (.cancel msg.id)
        · exact r.call_dimensions (.modify msg.id _)
    · split
      · exact r.call_dimensions (.cancel msg.id)
      · exact ⟨rfl,rfl⟩

/-- Along every stream the pipeline's book refines the reference that the messages build. -/
theorem refines_of_consume {maxOrders maxPrice : ℕ} (hmax : 1 ≤ maxOrders) {msgs : List InternalMessage}
    (hrun : consume pipelineDispatch (init maxOrders maxPrice) msgs = some lob) :
    Refines lob (msgs.foldl ReferenceBook.apply (ReferenceBook.init maxOrders maxPrice)) := by
  induction msgs using List.reverseRecOn generalizing lob with
  | nil =>
    obtain rfl := Option.some.inj hrun
    exact refines_init hmax maxPrice
  | append_singleton msgs msg ih =>
    rw [consume,List.foldlM_append] at hrun
    obtain ⟨lob₁,hlob₁,hlast⟩ := Option.bind_eq_some_iff.mp hrun
    rw [List.foldl_append]
    exact (ih hlob₁).apply (by simpa using hlast)

end TickToTrade
