import TickToTrade.OrderBook.Live
import TickToTrade.OrderBook.Termination

/-! Null entries as a budget. A search for an absent id needs one null entry to stop at, only a
successful `add` can use one up, and none ever comes back. -/
namespace TickToTrade

def BookCall.isAdd : BookCall → Bool
  | .add .. => true
  | .cancel _ => false
  | .modify .. => false

/-- How many of the calls are adds that were answered `true`. -/
def successfulAdds (calls : List BookCall) (answers : List Bool) : ℕ :=
  (calls.zip answers).countP fun p => p.1.isAdd && p.2

lemma successfulAdds_concat {calls : List BookCall} {answers : List Bool}
    (h : answers.length = calls.length) (c : BookCall) (a : Bool) :
    successfulAdds (calls ++ [c]) (answers ++ [a]) =
      successfulAdds calls answers + if c.isAdd && a then 1 else 0 := by
  rw [successfulAdds,List.zip_append h.symm,List.countP_append]
  simp [successfulAdds,List.countP_cons]

namespace LimitOrderBook
open Linked Probing

/-- The indices of the null entries of the order map. -/
def nullEntries (b : LimitOrderBook) : Finset ℕ :=
  (Finset.range b.mapCapacity).filter fun i => (b.orderMap i).value = .null

def nullSlots (b : LimitOrderBook) : ℕ := b.nullEntries.card

variable {b b' : LimitOrderBook} {free free' : List ℕ} {queue queue' : Side → UInt64 → List ℕ}
  {c : BookCall} {a : Bool}

lemma mem_nullEntries (i : ℕ) : i ∈ b.nullEntries ↔ i < b.mapCapacity ∧ b.table i = .empty := by
  rw [nullEntries,Finset.mem_filter,Finset.mem_range,table_eq_empty_iff]

lemma nullEntries_congr (hcap : b'.mapCapacity = b.mapCapacity) (htable : b'.table = b.table) :
    b'.nullEntries = b.nullEntries := by
  ext i
  simp only [mem_nullEntries,hcap,htable]

lemma hasNull_iff_nullSlots_pos (b : LimitOrderBook) : b.HasNull ↔ 0 < b.nullSlots := by
  rw [nullSlots,Finset.card_pos]
  simp only [HasNull,← table_eq_empty_iff,Finset.Nonempty,mem_nullEntries]

lemma nullSlots_init (maxOrders maxPrice : ℕ) : (init maxOrders maxPrice).nullSlots = 2 * maxOrders := by
  have hall : (init maxOrders maxPrice).nullEntries = Finset.range (maxOrders * 2) :=
    Finset.filter_true_of_mem fun _ _ => rfl
  rw [nullSlots,hall,Finset.card_range,Nat.mul_comm]

/-- The new entry of a successful `add` is the only one that can stop being null. -/
lemma Effect.nullEntries_add (heffect : Effect b free queue c true b' free' queue') (hadd : c.isAdd) :
    ∃ j, b'.nullEntries = b.nullEntries.erase j := by
  cases heffect with
  | @added id _ _ _ _ x _ j _ _ _ hkeep _ _ hj _ htable =>
    refine ⟨j,?_⟩
    ext i
    rw [Finset.mem_erase,mem_nullEntries,mem_nullEntries,htable,hkeep.mapCapacity]
    by_cases hi : i = j
    · simp [hi]
    · simp [hi]
  | removed hc =>
    rcases hc with rfl | rfl
    · simp [BookCall.isAdd] at hadd
    · simp [BookCall.isAdd] at hadd
  | increased => simp [BookCall.isAdd] at hadd
  | reduced => simp [BookCall.isAdd] at hadd

/-- Every other call keeps the null entries; a removal leaves a tombstone behind. -/
lemma Effect.nullEntries_eq (heffect : Effect b free queue c a b' free' queue')
    (hother : ¬ (c.isAdd ∧ a = true)) : b'.nullEntries = b.nullEntries := by
  cases heffect with
  | refused => rfl
  | added => exact absurd ⟨rfl,rfl⟩ hother
  | unknown => rfl
  | @removed _ id _ x j _ _ _ hkeep _ hslot htable =>
    ext i
    rw [mem_nullEntries,mem_nullEntries,htable,hkeep.mapCapacity]
    by_cases hi : i = j
    · simp [hi,hslot]
    · simp [hi]
  | increased _ _ _ hkeep _ _ htable => exact nullEntries_congr hkeep.mapCapacity htable
  | reduced _ _ _ _ hkeep _ _ htable => exact nullEntries_congr hkeep.mapCapacity htable

/-- One call uses up at most one null entry, and only a successful `add` uses one. -/
theorem Inv.nullSlots_call (h : Inv b free queue) (hcall : b.call c = some (a,b')) :
    b'.nullSlots ≤ b.nullSlots ∧ b.nullSlots ≤ b'.nullSlots + (if c.isAdd && a then 1 else 0) := by
  obtain ⟨free',queue',heffect,_⟩ := h.call_effect hcall
  by_cases hadd : c.isAdd ∧ a = true
  · obtain ⟨hc,rfl⟩ := hadd
    obtain ⟨j,hj⟩ := heffect.nullEntries_add hc
    have hle : (b.nullEntries.erase j).card ≤ b.nullEntries.card := Finset.card_erase_le
    have hpred := Finset.pred_card_le_card_erase (s := b.nullEntries) (a := j)
    simp only [nullSlots,hj,hc,Bool.and_true,if_true]
    omega
  · have hsame := heffect.nullEntries_eq hadd
    simp only [nullSlots,hsame]
    omega

/-- The search ends for some number of iterations exactly when one turn of the table is enough. -/
lemma Inv.probe_ends_iff (h : Inv b free queue) (id : UInt64) :
    (∃ fuel found, probeLoop b.mapCapacity (b.findBody id) fuel (id.toNat % b.mapCapacity) = some found) ↔
      (b.mapFind id).isSome := by
  have hstart := Nat.mod_lt id.toNat h.mapCapacity_pos
  constructor
  · rintro ⟨fuel,found,hfound⟩
    by_contra hnone
    have hdiverges : b.mapFind id = none := by simpa using hnone
    rw [probeLoop_diverges hstart hdiverges fuel] at hfound
    simp at hfound
  · intro hsome
    obtain ⟨found,hfound⟩ := Option.isSome_iff_exists.mp hsome
    exact ⟨b.mapCapacity,found,hfound⟩

section Runs
variable {maxOrders maxPrice : ℕ} (hmax : 1 ≤ maxOrders)
include hmax

/-- The null entries left and the adds that succeeded together cover the whole table. -/
theorem run_nullSlots_add_successfulAdds {calls : List BookCall} {answers : List Bool}
    (hrun : run LimitOrderBook.call (init maxOrders maxPrice) calls = some (answers,b)) :
    2 * maxOrders ≤ b.nullSlots + successfulAdds calls answers := by
  refine run_induction (I := fun pre before u => 2 * maxOrders ≤ u.nullSlots + successfulAdds pre before)
    ?_ ?_ hrun
  · exact (nullSlots_init maxOrders maxPrice).ge
  · intro pre c post before u a u' _ hpre hI hcall
    obtain ⟨free,queue,h⟩ := (valid_of_run hmax hpre).inv
    have hstep := (h.nullSlots_call hcall).2
    rw [successfulAdds_concat (run_length hpre)]
    omega

lemma nullSlots_le_of_run {calls₁ calls₂ : List BookCall} {answers₁ answers₂ : List Bool}
    {b₁ b₂ : LimitOrderBook}
    (h₁ : run LimitOrderBook.call (init maxOrders maxPrice) calls₁ = some (answers₁,b₁))
    (h₂ : run LimitOrderBook.call b₁ calls₂ = some (answers₂,b₂)) : b₂.nullSlots ≤ b₁.nullSlots := by
  refine run_induction (I := fun _ _ u => u.nullSlots ≤ b₁.nullSlots) (Nat.le_refl _) ?_ h₂
  intro pre c post before u a u' _ hpre hI hcall
  have hreach := run_append_eq_some.mpr ⟨b₁,answers₁,before,h₁,hpre,rfl⟩
  obtain ⟨free,queue,h⟩ := (valid_of_run hmax hreach).inv
  exact (h.nullSlots_call hcall).1.trans hI

/-- While fewer adds have succeeded than the table has entries, every call and lookup returns. -/
lemma returns_of_successfulAdds_lt {calls : List BookCall} {answers : List Bool}
    (hrun : run LimitOrderBook.call (init maxOrders maxPrice) calls = some (answers,b))
    (hfew : successfulAdds calls answers < 2 * maxOrders) :
    (∀ c, (b.call c).isSome) ∧ ∀ id, (b.getOrder id).isSome := by
  obtain ⟨free,queue,h⟩ := (valid_of_run hmax hrun).inv
  have hbudget := run_nullSlots_add_successfulAdds hmax hrun
  have hnull : b.HasNull := b.hasNull_iff_nullSlots_pos.mpr (by omega)
  refine ⟨fun c => (h.call_returns_iff c).mpr ?_,fun id => (h.mapFind_returns_iff id).mpr (.inr hnull)⟩
  cases c with
  | add id side price quantity => exact .inr (.inr hnull)
  | cancel id => exact .inr hnull
  | modify id q => exact .inr hnull

end Runs

/-- In every reachable state a search ends exactly when its id is live or a null entry is left; the
null entries never grow in number, a successful `add` uses up at most one and nothing else any, so
that a run returns as long as fewer than two adds per order of capacity have succeeded. -/
theorem run_probe_budget (maxOrders maxPrice : ℕ) (hmax : 1 ≤ maxOrders) (calls : List BookCall)
    (answers : List Bool) (b : LimitOrderBook)
    (hrun : run LimitOrderBook.call (init maxOrders maxPrice) calls = some (answers,b)) :
    (∀ id, (∃ fuel found,
        probeLoop b.mapCapacity (b.findBody id) fuel (id.toNat % b.mapCapacity) = some found) ↔
      b.LiveId id ∨ ∃ i < b.mapCapacity, (b.orderMap i).value = .null) ∧
    (∀ calls' answers' b', run LimitOrderBook.call b calls' = some (answers',b') →
      b'.nullSlots ≤ b.nullSlots) ∧
    (∀ c a b', b.call c = some (a,b') → b.nullSlots ≤ b'.nullSlots + 1 ∧
      (¬ (c.isAdd ∧ a = true) → b'.nullSlots = b.nullSlots)) ∧
    (successfulAdds calls answers < 2 * maxOrders →
      (∀ c, (b.call c).isSome) ∧ ∀ id, (b.getOrder id).isSome) ∧
    ∀ calls', (∀ pre c post, calls' = pre ++ c :: post → ∀ answers' u,
        run LimitOrderBook.call (init maxOrders maxPrice) pre = some (answers',u) →
        successfulAdds pre answers' < 2 * maxOrders) →
      (run LimitOrderBook.call (init maxOrders maxPrice) calls').isSome := by
  obtain ⟨free,queue,h⟩ := (valid_of_run hmax hrun).inv
  refine ⟨fun id => ?_,fun calls' answers' b' hrun' => nullSlots_le_of_run hmax hrun hrun',
    fun c a b' hcall => ⟨?_,fun hother => ?_⟩,returns_of_successfulAdds_lt hmax hrun,fun calls' hfew => ?_⟩
  · rw [h.probe_ends_iff,h.mapFind_isSome_iff,h.liveId_iff]
    simp only [Live,table_eq_empty_iff]
  · have hstep := (h.nullSlots_call hcall).2
    split at hstep <;> omega
  · obtain ⟨free',queue',heffect,_⟩ := h.call_effect hcall
    rw [nullSlots,heffect.nullEntries_eq hother,nullSlots]
  · rw [run_isSome_iff]
    intro pre c post hcalls answers' u hu
    exact (returns_of_successfulAdds_lt hmax hu (hfew pre c post hcalls answers' u hu)).1 c

/-- Three of the four entries of a table for two orders have been used, one of them twice. -/
theorem run_probe_budget_reused : ∃ b,
    run LimitOrderBook.call (init 2 10) [.add 1 .buy 5 100,.add 5 .buy 5 50,.cancel 1,.add 9 .sell 3 7] =
      some ([true,true,true,true],b) ∧
    ((∀ c, (b.call c).isSome) ∧ ∀ id, (b.getOrder id).isSome) ∧
    ∀ id, (∃ fuel found,
        probeLoop b.mapCapacity (b.findBody id) fuel (id.toNat % b.mapCapacity) = some found) ↔
      b.LiveId id ∨ ∃ i < b.mapCapacity, (b.orderMap i).value = .null :=
  run_exists_of_answers rfl fun b hb =>
    have h := run_probe_budget 2 10 (by decide) _ _ b hb
    ⟨h.2.2.2.1 (by decide),h.1⟩

end LimitOrderBook
end TickToTrade
