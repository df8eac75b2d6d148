import TickToTrade.Pipeline.Dispatch

/-! Where the two consumer loops keep the same book. `Main` drops executions and takes the
canceled shares of an `X` for the new quantity, so the loops agree on a stream only as long as
every message happens to have the same effect either way. -/
namespace TickToTrade
open LimitOrderBook

/-- The two books hold the same live orders with the same terms, in the same queues. -/
def SameBook (lob lob' : LimitOrderBook) : Prop := ∃ r, Agrees lob r ∧ Agrees lob' r

/-- Both loops return, with the same book, or neither does. -/
def SameOutcome : Option LimitOrderBook → Option LimitOrderBook → Prop
  | some lob, some lob' => SameBook lob lob'
  | none, none => True
  | _, _ => False

/-- The state before the message lets both switches do the same: an execution finds nothing, or
executes no share of a nonempty order; a partial cancel finds nothing, or takes exactly half. -/
def Reconciled (lob : LimitOrderBook) (msg : InternalMessage) : Prop :=
  (msg.type = 'E'.toUInt8 ∨ msg.type = 'C'.toUInt8 → lob.getOrder msg.id = some none ∨
    ∃ x, lob.getOrder msg.id = some (some x) ∧ msg.quantity = 0 ∧ (lob.orderPool x).quantity ≠ 0) ∧
  (msg.type = 'X'.toUInt8 → ∀ x, lob.getOrder msg.id = some (some x) →
    (lob.orderPool x).quantity.toNat = 2 * msg.quantity.toNat)

variable {lob lob' : LimitOrderBook} {r : ReferenceBook} {msg : InternalMessage}

lemma mainDispatch_of_executes (h : msg.type = 'E'.toUInt8 ∨ msg.type = 'C'.toUInt8) :
    mainDispatch lob msg = some lob := by
  rcases h with h | h <;> rw [mainDispatch,h,if_neg (by decide),if_neg (by decide),if_neg (by decide)]

lemma mainDispatch_of_cancels (h : msg.type = 'X'.toUInt8) :
    mainDispatch lob msg = (lob.modify msg.id msg.quantity).map Prod.snd := by
  rw [mainDispatch,h,if_neg (by decide),if_neg (by decide),if_pos rfl]

/-- Off executions and partial cancels the two switches are one. -/
lemma mainDispatch_of_not_reduces (h : ¬ msg.Reduces) :
    mainDispatch lob msg = pipelineDispatch lob msg := by
  have hX : msg.type ≠ 'X'.toUInt8 := fun hX => h (.inr (.inr hX))
  rw [mainDispatch,pipelineDispatch,if_neg h,if_neg hX]

lemma modify_same {id : UInt64} {x : ℕ} (hfind : lob.mapFind id = some (some x))
    (hq : (lob.orderPool x).quantity ≠ 0) :
    lob.modify id (lob.orderPool x).quantity = some (true,lob) := by
  have hlevel : ∀ side price, lob.setLevel side price (lob.level side price) = lob := by
    intro side price
    cases side <;> simp [setLevel,level]
  simp [LimitOrderBook.modify,hfind,hq,hlevel,setOrder]

/-- Half of the shares is as much as is left. -/
lemma sub_eq_of_double {q m : UInt64} (h : q.toNat = 2 * m.toNat) : q - m = m := by
  have hle : m ≤ q := by
    rw [UInt64.le_iff_toNat_le]
    omega
  apply UInt64.toNat_inj.mp
  rw [UInt64.toNat_sub_of_le _ _ hle]
  omega

theorem Reconciled.dispatch_eq (h : Reconciled lob msg) :
    mainDispatch lob msg = pipelineDispatch lob msg := by
  by_cases hreduces : msg.Reduces
  · rw [pipelineDispatch_of_reduces hreduces]
    by_cases hX : msg.type = 'X'.toUInt8
    · rw [mainDispatch_of_cancels hX]
      cases hfind : lob.getOrder msg.id with
      | none =>
        have hfind' : lob.mapFind msg.id = none := hfind
        simp [LimitOrderBook.modify,hfind']
      | some found =>
        cases found with
        | none => simp [modify_of_absent hfind]
        | some x =>
          have hdouble := h.2 hX x hfind
          simp only [Option.bind_eq_bind,Option.bind_some]
          split
          · rename_i hle
            have hzero : msg.quantity = 0 := by
              rw [UInt64.le_iff_toNat_le] at hle
              apply UInt64.toNat_inj.mp
              change _ = 0
              omega
            rw [hzero,modify_zero hfind]
          · rw [sub_eq_of_double hdouble]
    · have hexec : msg.type = 'E'.toUInt8 ∨ msg.type = 'C'.toUInt8 := by
        rcases hreduces with hE | hC | hX'
        · exact .inl hE
        · exact .inr hC
        · exact absurd hX' hX
      rw [mainDispatch_of_executes hexec]
      rcases h.1 hexec with hfind | ⟨x,hfind,hm,hq⟩
      · simp [hfind]
      · simp [hfind,hm,hq,modify_same hfind hq]
  · exact mainDispatch_of_not_reduces hreduces

lemma LimitOrderBook.Agrees.lookup_eq {r' : ReferenceBook} (h : Agrees lob r) (h' : Agrees lob r')
    (id : UInt64) : r.orders.lookup id = r'.orders.lookup id := by
  by_cases hid : id ∈ r.orders
  · obtain ⟨x,hx⟩ := (h.found_iff id).mpr hid
    rw [(h.found id x hx).2,(h'.found id x hx).2]
  · have hid' : id ∉ r'.orders := by
      rwa [← h'.found_iff,h.found_iff]
    rw [Finmap.lookup_eq_none.mpr hid,Finmap.lookup_eq_none.mpr hid']

lemma SameBook.lookup_eq {r' : ReferenceBook} (h : SameBook lob lob') (hR : Refines lob r)
    (hR' : Refines lob' r') (id : UInt64) : r.orders.lookup id = r'.orders.lookup id := by
  obtain ⟨r₀,h₀,h₀'⟩ := h
  rw [hR.agrees.lookup_eq h₀,h₀'.lookup_eq hR'.agrees]

lemma LimitOrderBook.Refines.modify_returns (h : Refines lob r) {id : UInt64} {x : ℕ}
    (hfind : lob.getOrder id = some (some x)) (q : UInt64) :
    ∃ lob₁, (lob.modify id q).map Prod.snd = some lob₁ ∧ Refines lob₁ (r.modify id q).2 := by
  have ⟨free,queue,hinv,_⟩ := h
  have hreturns : (lob.call (.modify id q)).isSome := by
    rw [hinv.call_returns_iff]
    have hsome : (lob.mapFind id).isSome := Option.isSome_iff_exists.mpr ⟨_,hfind⟩
    exact (hinv.mapFind_returns_iff id).mp hsome
  obtain ⟨⟨a,lob₁⟩,hcall⟩ := Option.isSome_iff_exists.mp hreturns
  have hmodify : lob.modify id q = some (a,lob₁) := hcall
  exact ⟨lob₁,by rw [hmodify,Option.map_some],(h.call hcall).2⟩

lemma LimitOrderBook.Refines.reduction_returns (h : Refines lob r) {x : ℕ}
    (hreduces : msg.Reduces) (hfind : lob.getOrder msg.id = some (some x)) :
    ∃ lob₁, pipelineDispatch lob msg = some lob₁ ∧ Refines lob₁ (r.apply msg) := by
  have hreturns : ∃ lob₁, pipelineDispatch lob msg = some lob₁ := by
    rw [pipelineDispatch_of_reduces hreduces,hfind]
    simp only [Option.bind_eq_bind,Option.bind_some]
    split
    · obtain ⟨lob₁,hlob₁,_⟩ := h.modify_returns hfind 0
      rw [modify_zero hfind] at hlob₁
      exact ⟨lob₁,hlob₁⟩
    · obtain ⟨lob₁,hlob₁,_⟩ := h.modify_returns hfind ((lob.orderPool x).quantity - msg.quantity)
      exact ⟨lob₁,hlob₁⟩
  obtain ⟨lob₁,hlob₁⟩ := hreturns
  exact ⟨lob₁,hlob₁,h.apply hlob₁⟩

/-- An execution that `Main` drops shows, unless it executes no share. -/
lemma LimitOrderBook.Refines.executes_reconciled (h : Refines lob r)
    (hexec : msg.type = 'E'.toUInt8 ∨ msg.type = 'C'.toUInt8)
    (hsame : SameOutcome (mainDispatch lob msg) (pipelineDispatch lob msg)) :
    lob.getOrder msg.id = some none ∨
      ∃ x, lob.getOrder msg.id = some (some x) ∧ msg.quantity = 0 ∧ (lob.orderPool x).quantity ≠ 0 := by
  have hreduces : msg.Reduces := hexec.imp_right .inl
  rw [mainDispatch_of_executes hexec] at hsame
  cases hfind : lob.getOrder msg.id with
  | none =>
    rw [pipelineDispatch_of_reduces hreduces,hfind] at hsame
    exact hsame.elim
  | some found =>
    cases found with
    | none => exact .inl rfl
    | some x =>
      obtain ⟨lob₁,hlob₁,hR₁⟩ := h.reduction_returns hreduces hfind
      rw [hlob₁] at hsame
      have hlookup := SameBook.lookup_eq hsame h hR₁ msg.id
      rw [r.lookup_apply_of_reduces hreduces,if_pos rfl,h.lookup_of_getOrder hfind,Option.bind_some]
        at hlookup
      obtain ⟨hlt,_,_,hq⟩ := Terms.reduced_eq_some_iff.mp hlookup.symm
      have hm : msg.quantity = 0 := by
        apply UInt64.toNat_inj.mp
        rw [UInt64.toNat_zero]
        omega
      refine .inr ⟨x,rfl,hm,fun hzero => ?_⟩
      change msg.quantity.toNat < (lob.orderPool x).quantity.toNat at hlt
      rw [hzero,UInt64.toNat_zero] at hlt
      omega

/-- A partial cancel that `Main` takes for a new quantity shows, unless it cancels half. -/
lemma LimitOrderBook.Refines.cancels_reconciled (h : Refines lob r) (hX : msg.type = 'X'.toUInt8)
    (hsame : SameOutcome (mainDispatch lob msg) (pipelineDispatch lob msg)) {x : ℕ}
    (hfind : lob.getOrder msg.id = some (some x)) :
    (lob.orderPool x).quantity.toNat = 2 * msg.quantity.toNat := by
  have hreduces : msg.Reduces := .inr (.inr hX)
  obtain ⟨lob₁,hlob₁,hR₁⟩ := h.modify_returns hfind msg.quantity
  obtain ⟨lob₂,hlob₂,hR₂⟩ := h.reduction_returns hreduces hfind
  rw [mainDispatch_of_cancels hX,hlob₁,hlob₂] at hsame
  have hlookup := SameBook.lookup_eq hsame hR₁ hR₂ msg.id
  rw [r.lookup_apply_of_reduces hreduces,r.lookup_modify,if_pos rfl,if_pos rfl,
    h.lookup_of_getOrder hfind,Option.bind_some,Option.bind_some] at hlookup
  split at hlookup
  · rename_i hzero
    have hle := Terms.reduced_eq_none_iff.mp hlookup.symm
    rw [UInt64.le_iff_toNat_le,hzero,UInt64.toNat_zero] at hle
    change (lob.orderPool x).quantity.toNat ≤ 0 at hle
    rw [hzero,UInt64.toNat_zero]
    omega
  · obtain ⟨_,_,_,hq⟩ := Terms.reduced_eq_some_iff.mp hlookup.symm
    change msg.quantity.toNat + msg.quantity.toNat = (lob.orderPool x).quantity.toNat at hq
    omega

/-- One message has the same outcome in both loops exactly when it is reconciled. -/
theorem LimitOrderBook.Refines.sameOutcome_iff (h : Refines lob r) :
    SameOutcome (mainDispatch lob msg) (pipelineDispatch lob msg) ↔ Reconciled lob msg := by
  constructor
  · intro hsame
    exact ⟨fun hexec => h.executes_reconciled hexec hsame,
      fun hX x hfind => h.cancels_reconciled hX hsame hfind⟩
  · intro hrec
    rw [hrec.dispatch_eq]
    cases hlob' : pipelineDispatch lob msg with
    | none => trivial
    | some lob' => exact ⟨r.apply msg,(h.apply hlob').agrees,(h.apply hlob').agrees⟩

lemma LimitOrderBook.Refines.reduction_le (h : Refines lob r) (hreduces : msg.Reduces)
    (hstep : pipelineDispatch lob msg = some lob') {id : UInt64} {x x' : ℕ}
    (hfind : lob.getOrder id = some (some x)) (hfind' : lob'.getOrder id = some (some x')) :
    (lob'.orderPool x').quantity ≤ (lob.orderPool x).quantity := by
  have hlookup := (h.apply hstep).lookup_of_getOrder hfind'
  rw [r.lookup_apply_of_reduces hreduces,h.lookup_of_getOrder hfind] at hlookup
  rw [UInt64.le_iff_toNat_le]
  split at hlookup
  · obtain ⟨_,_,_,hq⟩ := Terms.reduced_eq_some_iff.mp hlookup
    change (lob'.orderPool x').quantity.toNat + _ = (lob.orderPool x).quantity.toNat at hq
    omega
  · have hq : (lob.orderPool x).quantity = (lob'.orderPool x').quantity :=
      congrArg Terms.quantity (Option.some.inj hlookup)
    rw [hq]

/-- After every prefix of the stream the two loops have the same outcome, and no message that
cancels or executes shares increases a quantity in the book of `Main`. -/
def LoopsAgree (maxOrders maxPrice : ℕ) (msgs : List InternalMessage) : Prop :=
  (∀ pre post, msgs = pre ++ post →
    SameOutcome (consume mainDispatch (init maxOrders maxPrice) pre)
      (consume pipelineDispatch (init maxOrders maxPrice) pre)) ∧
  ∀ pre msg post, msgs = pre ++ msg :: post → msg.Reduces → ∀ lob lob',
    consume mainDispatch (init maxOrders maxPrice) pre = some lob →
    mainDispatch lob msg = some lob' → ∀ id x x', lob.getOrder id = some (some x) →
    lob'.getOrder id = some (some x') → (lob'.orderPool x').quantity ≤ (lob.orderPool x).quantity

/-- The loops agree on a stream exactly when every message of it is reconciled in the state that
the messages before it leave. -/
theorem loopsAgree_iff_reconciled (maxOrders maxPrice : ℕ) (hmax : 1 ≤ maxOrders)
    (msgs : List InternalMessage) : LoopsAgree maxOrders maxPrice msgs ↔
      ∀ pre msg post, msgs = pre ++ msg :: post → ∀ lob,
        consume mainDispatch (init maxOrders maxPrice) pre = some lob → Reconciled lob msg := by
  have hrelated := foldlM_related_iff (S := SameOutcome) (C := Reconciled)
    (I := fun lob => ∃ r, Refines lob r)
    (fun lob ⟨r,hR⟩ => ⟨r,hR.agrees,hR.agrees⟩) trivial (fun lob msg ⟨r,hR⟩ => hR.sameOutcome_iff)
    (fun lob msg hrec => hrec.dispatch_eq) (fun lob msg lob' ⟨r,hR⟩ hstep => ⟨_,hR.apply hstep⟩)
    ⟨_,refines_init hmax maxPrice⟩ msgs
  constructor
  · intro hagree
    exact hrelated.mp hagree.1
  · intro hrec
    refine ⟨hrelated.mpr hrec,?_⟩
    rintro pre msg post rfl hreduces lob lob' hlob hstep id x x' hfind hfind'
    have hsame : consume mainDispatch (init maxOrders maxPrice) pre =
        consume pipelineDispatch (init maxOrders maxPrice) pre := by
      apply foldlM_eq_of_forall
      rintro pre' a post' rfl t ht
      exact (hrec pre' a (post' ++ msg :: post) (by simp) t ht).dispatch_eq
    rw [hsame] at hlob
    rw [(hrec pre msg post rfl lob (hsame.trans hlob)).dispatch_eq] at hstep
    exact (refines_of_consume hmax hlob).reduction_le hreduces hstep hfind hfind'

/-- An order of 100 shares half of which is canceled: the two readings of the message coincide. -/
theorem loopsAgree_iff_reconciled_half :
    LoopsAgree 1 10 [⟨'A'.toUInt8,1,5,100,.buy⟩,⟨'X'.toUInt8,1,0,50,.buy⟩] := by
  rw [loopsAgree_iff_reconciled 1 10 (by decide)]
  intro pre msg post hmsgs lob hlob
  match pre, hmsgs with
  | [], hmsgs =>
    obtain ⟨rfl,_⟩ := List.cons.inj hmsgs
    exact ⟨fun h => absurd h (by decide),fun h => absurd h (by decide)⟩
  | [_], hmsgs =>
    obtain ⟨rfl,hrest⟩ := List.cons.inj hmsgs
    obtain ⟨rfl,_⟩ := List.cons.inj hrest
    obtain rfl := Option.some.inj hlob
    refine ⟨fun h => absurd h (by decide),fun _ x hx => ?_⟩
    obtain rfl : 0 = x := Option.some.inj (Option.some.inj hx)
    rfl
  | _ :: _ :: _, hmsgs => simp at hmsgs

/-- 100 shares of which 30 and then 50 are canceled. `Main` holds 30 and then 50 shares, the
pipeline 70 and then 20, and the second cancel increases the order in the book of `Main`. -/
theorem loops_disagree_on_partial_cancels :
    Itch.received
      [('A'.toUInt8 :: List.replicate 10 0 ++ [0,0,0,0,0,0,0,1,'B'.toUInt8,0,0,0,100] ++
          List.replicate 8 ' '.toUInt8 ++ [0,0,0,5],⟨0,0,0,0,.buy⟩),
        ('X'.toUInt8 :: List.replicate 10 0 ++ [0,0,0,0,0,0,0,1,0,0,0,30],⟨0,0,0,0,.buy⟩),
        ('X'.toUInt8 :: List.replicate 10 0 ++ [0,0,0,0,0,0,0,1,0,0,0,50],⟨0,0,0,0,.buy⟩)] =
      [⟨'A'.toUInt8,1,5,100,.buy⟩,⟨'X'.toUInt8,1,0,30,.buy⟩,⟨'X'.toUInt8,1,0,50,.buy⟩] ∧
    ((consume mainDispatch (init 1 10) [⟨'A'.toUInt8,1,5,100,.buy⟩,⟨'X'.toUInt8,1,0,30,.buy⟩,
      ⟨'X'.toUInt8,1,0,50,.buy⟩]).map fun lob => (lob.getOrder 1,(lob.orderPool 0).quantity)) =
      some (some (some 0),50) ∧
    ((consume pipelineDispatch (init 1 10) [⟨'A'.toUInt8,1,5,100,.buy⟩,⟨'X'.toUInt8,1,0,30,.buy⟩,
      ⟨'X'.toUInt8,1,0,50,.buy⟩]).map fun lob => (lob.getOrder 1,(lob.orderPool 0).quantity)) =
      some (some (some 0),20) ∧
    ¬ LoopsAgree 1 10
      [⟨'A'.toUInt8,1,5,100,.buy⟩,⟨'X'.toUInt8,1,0,30,.buy⟩,⟨'X'.toUInt8,1,0,50,.buy⟩] := by
  refine ⟨by decide +kernel,rfl,rfl,fun hagree => ?_⟩
  have hle := hagree.2 [⟨'A'.toUInt8,1,5,100,.buy⟩,⟨'X'.toUInt8,1,0,30,.buy⟩] _ [] rfl
    (.inr (.inr rfl)) _ _ rfl rfl 1 0 0 rfl rfl
  exact absurd hle (by decide +kernel)

end TickToTrade
