import TickToTrade.Risk.Model
import TickToTrade.Library.Run
import Mathlib.Algebra.Order.BigOperators.Group.Finset
import Mathlib.Algebra.BigOperators.Ring.Finset

/-! Strategy threads that share one risk engine. A thread checks an order in one atomic step and,
if it was approved, adds its signed shares in a second one; in between other threads check
against a position that does not count it yet. -/
namespace TickToTrade.SharedRisk
open PreTradeRiskEngine

variable {ι : Type*} [DecidableEq ι]

/-- The shared engine, and for each thread the approved shares it has still to add. -/
structure State (ι : Type*) where
  engine : PreTradeRiskEngine
  inFlight : ι → Option ℤ

inductive Action (ι : Type*)
  | check (thread : ι) (side : UInt8) (shares referencePrice : UInt32) (deviates : Bool)
  | update (thread : ι)

def init (config : RiskConfig) : State ι := ⟨PreTradeRiskEngine.init config,fun _ => none⟩

/-- One atomic step; a thread takes only its own next step. -/
def step (s : State ι) : Action ι → Option (State ι)
  | .check thread side shares referencePrice deviates =>
    match s.inFlight thread with
    | some _ => none
    | none =>
      match s.engine.checkOrder side shares referencePrice deviates with
      | none => none
      | some .approved =>
        some { s with inFlight := Function.update s.inFlight thread (some (signedShares side shares)) }
      | some _ => some s
  | .update thread =>
    match s.inFlight thread with
    | none => none
    | some q =>
      some ⟨s.engine.updatePosition q,Function.update s.inFlight thread none⟩

/-- Everything one step can do. -/
theorem step_cases {s s' : State ι} {a : Action ι} (h : step s a = some s') :
    s' = s ∨
    (∃ thread side shares, s.inFlight thread = none ∧ shares ≤ s.engine.config.maxOrderSize ∧
      |s.engine.currentPosition + signedShares side shares| ≤ s.engine.config.maxPosition ∧
      s' = { s with inFlight := Function.update s.inFlight thread (some (signedShares side shares)) }) ∨
    ∃ thread q, s.inFlight thread = some q ∧
      s' = ⟨s.engine.updatePosition q,Function.update s.inFlight thread none⟩ := by
  cases a with
  | check thread side shares referencePrice deviates =>
    simp only [step] at h
    split at h
    · contradiction
    · rename_i hidle
      split at h
      · contradiction
      · rename_i happroved
        obtain rfl := Option.some.inj h
        obtain ⟨hsize,_,hlimit⟩ := approved_spec happroved
        exact .inr (.inl ⟨thread,side,shares,hidle,hsize,hlimit,rfl⟩)
      · exact .inl (Option.some.inj h).symm
  | update thread =>
    simp only [step] at h
    split at h
    · contradiction
    · rename_i q hq
      exact .inr (.inr ⟨thread,q,hq,(Option.some.inj h).symm⟩)

/-- Shares bought and shares sold by orders in flight. -/
def bought (q : Option ℤ) : ℤ := max 0 (q.getD 0)

def sold (q : Option ℤ) : ℤ := max 0 (-q.getD 0)

variable [Fintype ι]

/-- The limit, stretched by one order of each other thread. -/
def stretched (ι : Type*) [Fintype ι] (config : RiskConfig) : ℤ :=
  config.maxPosition + (Fintype.card ι - 1 : ℕ) * config.maxOrderSize.toNat

/-- Even when all buys in flight are added, or all sells, the stretched limit holds. -/
structure Bounded (config : RiskConfig) (s : State ι) : Prop where
  config_eq : s.engine.config = config
  inFlight_le : ∀ t q, s.inFlight t = some q → |q| ≤ config.maxOrderSize.toNat
  upper : s.engine.currentPosition + ∑ t, bought (s.inFlight t) ≤ stretched ι config
  lower : -stretched ι config ≤ s.engine.currentPosition - ∑ t, sold (s.inFlight t)

lemma sum_update (f : Option ℤ → ℤ) (flight : ι → Option ℤ) (t : ι) (q : Option ℤ) :
    ∑ x, f (Function.update flight t q x) + f (flight t) = ∑ x, f (flight x) + f q := by
  have hrest : ∑ x ∈ Finset.univ.erase t, f (Function.update flight t q x) =
      ∑ x ∈ Finset.univ.erase t, f (flight x) := by
    apply Finset.sum_congr rfl
    intro x hx
    rw [Function.update_of_ne (Finset.ne_of_mem_erase hx)]
  rw [← Finset.add_sum_erase _ (fun x => f (Function.update flight t q x)) (Finset.mem_univ t),
    ← Finset.add_sum_erase _ (fun x => f (flight x)) (Finset.mem_univ t),hrest,Function.update_self]
  omega

/-- The threads other than an idle one have at most one order each in flight. -/
lemma sum_le_of_idle {f : Option ℤ → ℤ} {flight : ι → Option ℤ} {t : ι} {bound : ℕ}
    (hidle : f (flight t) = 0) (hle : ∀ x, f (flight x) ≤ bound) :
    ∑ x, f (flight x) ≤ (Fintype.card ι - 1 : ℕ) * bound := by
  rw [← Finset.add_sum_erase _ (fun x => f (flight x)) (Finset.mem_univ t),hidle,zero_add]
  have hsum := Finset.sum_le_card_nsmul (Finset.univ.erase t) (fun x => f (flight x)) bound
    fun x _ => hle x
  rwa [Finset.card_erase_of_mem (Finset.mem_univ t),Finset.card_univ,nsmul_eq_mul] at hsum

variable {config : RiskConfig} {s s' : State ι} {thread : ι} {q : ℤ}

omit [DecidableEq ι] in
lemma bounded_init (hmax : 0 ≤ config.maxPosition) : Bounded config (init config : State ι) where
  config_eq := rfl
  inFlight_le t q h := by simp [init] at h
  upper := by
    simp only [init,PreTradeRiskEngine.init,bought,Option.getD_none,max_self,Finset.sum_const_zero,stretched]
    positivity
  lower := by
    simp only [init,PreTradeRiskEngine.init,sold,Option.getD_none,neg_zero,max_self,Finset.sum_const_zero,
      stretched]
    have : 0 ≤ config.maxPosition + (Fintype.card ι - 1 : ℕ) * config.maxOrderSize.toNat := by positivity
    omega

omit [DecidableEq ι] in
/-- An order in flight, in either direction, is within the order limit. -/
lemma Bounded.inFlight_parts_le (h : Bounded config s) (t : ι) :
    bought (s.inFlight t) ≤ config.maxOrderSize.toNat ∧ sold (s.inFlight t) ≤ config.maxOrderSize.toNat := by
  unfold bought sold
  cases hq : s.inFlight t with
  | none => simp
  | some q =>
    have := abs_le.mp (h.inFlight_le t q hq)
    simp only [Option.getD_some]
    omega

/-- An approval counts its order against the position it has read, and every other thread has at
most one order in flight. -/
lemma Bounded.approve (h : Bounded config s) (hidle : s.inFlight thread = none)
    (hsize : |q| ≤ config.maxOrderSize.toNat) (hlimit : |s.engine.currentPosition + q| ≤ config.maxPosition) :
    Bounded config { s with inFlight := Function.update s.inFlight thread (some q) } := by
  have hbought := sum_update bought s.inFlight thread (some q)
  have hsold := sum_update sold s.inFlight thread (some q)
  have hothers := sum_le_of_idle (t := thread) (by simp [hidle,bought]) fun t => (h.inFlight_parts_le t).1
  have hothers' := sum_le_of_idle (t := thread) (by simp [hidle,sold]) fun t => (h.inFlight_parts_le t).2
  have hpos := abs_le.mp hlimit
  have hupper := h.upper
  have hlower := h.lower
  simp only [hidle,bought,sold,Option.getD_none,Option.getD_some,neg_zero,max_self] at hbought hsold
  refine ⟨h.config_eq,fun t q' hq' => ?_,?_,?_⟩
  · by_cases ht : t = thread
    · subst ht
      simp only [Function.update_self,Option.some.injEq] at hq'
      rwa [← hq']
    · exact h.inFlight_le t q' (by simpa [ht] using hq')
  · unfold stretched at hupper ⊢
    unfold bought at hothers hupper ⊢
    dsimp only
    omega
  · unfold stretched at hlower ⊢
    unfold sold at hothers' hlower ⊢
    dsimp only
    omega

/-- An update moves its order from the flight into the position. -/
lemma Bounded.update (h : Bounded config s) (hrange : stretched ι config < 2 ^ 63)
    (hq : s.inFlight thread = some q) :
    Bounded config ⟨s.engine.updatePosition q,Function.update s.inFlight thread none⟩ := by
  have hbought := sum_update bought s.inFlight thread none
  have hsold := sum_update sold s.inFlight thread none
  have hupper := h.upper
  have hlower := h.lower
  have hnonneg : ∀ t, 0 ≤ bought (s.inFlight t) := fun t => le_max_left _ _
  have hnonneg' : ∀ t, 0 ≤ sold (s.inFlight t) := fun t => le_max_left _ _
  have hmem := Finset.single_le_sum (fun t _ => hnonneg t) (Finset.mem_univ thread)
  have hmem' := Finset.single_le_sum (fun t _ => hnonneg' t) (Finset.mem_univ thread)
  simp only [hq,bought,sold,Option.getD_none,Option.getD_some,neg_zero,max_self]
    at hbought hsold hmem hmem' hupper hlower
  have hexact : (s.engine.updatePosition q).currentPosition = s.engine.currentPosition + q := by
    apply updatePosition_exact
    rw [abs_lt]
    omega
  refine ⟨h.config_eq,fun t q' hq' => ?_,?_,?_⟩
  · by_cases ht : t = thread
    · simp [ht] at hq'
    · exact h.inFlight_le t q' (by simpa [ht] using hq')
  · dsimp only
    rw [hexact]
    unfold bought
    omega
  · dsimp only
    rw [hexact]
    unfold sold
    omega

omit [Fintype ι] in
lemma step_range {a : Action ι} (hs : |s.engine.currentPosition| ≤ 2 ^ 63) (h : step s a = some s') :
    |s'.engine.currentPosition| ≤ 2 ^ 63 := by
  rcases step_cases h with rfl | ⟨_,_,_,_,_,_,rfl⟩ | ⟨thread,q,_,rfl⟩
  · exact hs
  · exact hs
  · have hlower := Int.le_bmod (x := s.engine.currentPosition + q) (m := 2 ^ 64) (by decide)
    have hupper := Int.bmod_lt (x := s.engine.currentPosition + q) (m := 2 ^ 64) (by decide)
    rw [abs_le]
    change _ ≤ Int.bmod _ _ ∧ Int.bmod _ _ ≤ _
    omega

/-- In every interleaving the position exceeds the limit by at most one order of each thread but
one; a single thread never exceeds it. -/
theorem run_position_le_stretched (ι : Type) [Fintype ι] [DecidableEq ι] (config : RiskConfig)
    (hmax : 0 ≤ config.maxPosition) (actions : List (Action ι)) (s : State ι)
    (hrun : actions.foldlM step (init config) = some s) :
    |s.engine.currentPosition| ≤
      config.maxPosition + (Fintype.card ι - 1 : ℕ) * config.maxOrderSize.toNat := by
  by_cases hrange : stretched ι config < 2 ^ 63
  · have hbounded : Bounded config s := by
      refine foldlM_invariant (fun s a s' hs h => ?_) (bounded_init hmax) hrun
      rcases step_cases h with rfl | ⟨thread,side,shares,hidle,hsize,hlimit,rfl⟩ | ⟨thread,q,hq,rfl⟩
      · exact hs
      · rw [hs.config_eq] at hsize hlimit
        refine hs.approve hidle ?_ hlimit
        rw [signedShares_abs]
        exact_mod_cast UInt32.le_iff_toNat_le.mp hsize
      · exact hs.update hrange hq
    have hbought : 0 ≤ ∑ t, bought (s.inFlight t) := Finset.sum_nonneg fun t _ => le_max_left _ _
    have hsold : 0 ≤ ∑ t, sold (s.inFlight t) := Finset.sum_nonneg fun t _ => le_max_left _ _
    have hupper := hbounded.upper
    have hlower := hbounded.lower
    unfold stretched at hupper hlower
    rw [abs_le]
    omega
  · have hint64 : |s.engine.currentPosition| ≤ 2 ^ 63 := by
      refine foldlM_invariant (I := fun s => |s.engine.currentPosition| ≤ 2 ^ 63)
        (fun s a s' hs h => step_range hs h) ?_ hrun
      simp [init,PreTradeRiskEngine.init]
    unfold stretched at hrange
    omega

/-- Three threads, one of them idle, with two buys checked before either is added. -/
theorem run_position_le_stretched_two_buys : ∃ s : State (Fin 3),
    List.foldlM step (init ⟨100,100⟩) [.check 0 'B'.toUInt8 60 0 false,.check 1 'B'.toUInt8 70 0 false,
      .update 0,.update 1,.check 2 'S'.toUInt8 40 0 false] = some s ∧
    |s.engine.currentPosition| ≤ 100 + (Fintype.card (Fin 3) - 1 : ℕ) * UInt32.toNat 100 :=
  exists_of_isSome (by decide +kernel) fun s hs =>
    run_position_le_stretched (Fin 3) ⟨100,100⟩ (by decide) _ s hs

/-- Two threads check a buy of the whole limit against the same position, and both add it. -/
theorem position_limit_exceeded_by_race : ∃ s : State (Fin 2),
    List.foldlM step (init ⟨100,100⟩) [.check 0 'B'.toUInt8 100 0 false,.check 1 'B'.toUInt8 100 0 false,
      .update 0,.update 1] = some s ∧
    s.engine.config.maxPosition = 100 ∧ s.engine.currentPosition = 200 ∧
    ¬ |s.engine.currentPosition| ≤ s.engine.config.maxPosition :=
  ⟨_,rfl,rfl,rfl,by decide⟩

end TickToTrade.SharedRisk
