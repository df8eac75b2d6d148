import TickToTrade.OrderBook.Effect
import Mathlib.Data.Set.Card

/-! The live orders of a book, read off its price levels, and how many there are. A call is refused
exactly for one of its documented reasons, and a refused call changes nothing. -/
namespace TickToTrade.LimitOrderBook
open Linked Probing

/-- The slot is on the list of a price level. -/
def Resting (b : LimitOrderBook) (x : ℕ) : Prop :=
  ∃ side price, price.toNat < b.maxPrice ∧ ∃ slots,
    Walks (fun i => (b.orderPool i).next) (b.level side price).head slots ∧ x ∈ slots

/-- An order with the id is live. -/
def LiveId (b : LimitOrderBook) (id : UInt64) : Prop := ∃ x, b.Resting x ∧ (b.orderPool x).id = id

/-- How many orders are live. -/
noncomputable def liveOrders (b : LimitOrderBook) : ℕ := {x | b.Resting x}.ncard

variable {b b' : LimitOrderBook} {free : List ℕ} {queue : Side → UInt64 → List ℕ} {id : UInt64} {r : Bool}

section Counting
variable (h : Inv b free queue)
include h

theorem Inv.resting_iff (x : ℕ) : b.Resting x ↔ OnLevel queue x := by
  constructor
  · rintro ⟨s,p,_,slots,hslots,hx⟩
    have hwalk : Walks (fun i => (b.orderPool i).next) (b.level s p).head (queue s p) :=
      (h.pool.level s p).forward
    rw [hslots.unique hwalk] at hx
    exact ⟨s,p,hx⟩
  · rintro ⟨s,p,hx⟩
    exact ⟨s,p,(h.pool.queue_mem s p x hx).2.2,queue s p,(h.pool.level s p).forward,hx⟩

lemma Inv.liveId_iff (id : UInt64) : b.LiveId id ↔ Live b queue id := by
  simp only [LiveId,Live,h.resting_iff]

lemma Inv.mem_range_sdiff_free (i : ℕ) :
    i ∈ Finset.range b.maxOrders \ free.toFinset ↔ OnLevel queue i := by
  rw [Finset.mem_sdiff,Finset.mem_range,List.mem_toFinset,h.pool.partition i]
  constructor
  · rintro ⟨hi | hi | hi,hnot⟩
    · exact absurd hi hnot
    · simp at hi
    · exact hi
  · intro hi
    exact ⟨.inr (.inr hi),fun hf => h.pool.free_not_onLevel i hf hi⟩

lemma Inv.card_range_sdiff_free :
    (Finset.range b.maxOrders \ free.toFinset).card + free.length = b.maxOrders := by
  have hsub : free.toFinset ⊆ Finset.range b.maxOrders := by
    intro i hi
    rw [Finset.mem_range,h.pool.partition i]
    exact .inl (List.mem_toFinset.mp hi)
  rw [← List.toFinset_card_of_nodup h.pool.free_nodup,Finset.card_sdiff_add_card_eq_card hsub,
    Finset.card_range]

/-- Free slots and live orders together make up the pool. -/
theorem Inv.liveOrders_add_free : b.liveOrders + free.length = b.maxOrders := by
  have hset : {x | b.Resting x} = ↑(Finset.range b.maxOrders \ free.toFinset) := by
    ext x
    rw [Finset.mem_coe,h.mem_range_sdiff_free x]
    exact h.resting_iff x
  rw [liveOrders,hset,Set.ncard_coe_finset]
  exact h.card_range_sdiff_free

lemma Inv.liveOrders_lt_iff : b.liveOrders < b.maxOrders ↔ b.freeListHead ≠ none := by
  have hcount := h.liveOrders_add_free
  rw [h.freeListHead_eq,Ne,List.head?_eq_none_iff,← List.length_eq_zero_iff]
  omega

end Counting

lemma Effect.add_refused_iff {free' : List ℕ} {queue' : Side → UInt64 → List ℕ} {side : Side}
    {price quantity : UInt64} (h : Inv b free queue)
    (heffect : Effect b free queue (.add id side price quantity) r b' free' queue') :
    (r = false ↔ b.maxPrice ≤ price.toNat ∨ b.LiveId id ∨ b.liveOrders = b.maxOrders) ∧
      (r = false → b' = b) := by
  have hcount := h.liveOrders_add_free
  rw [h.liveId_iff]
  cases heffect with
  | refused why =>
    refine ⟨⟨fun _ => ?_,fun _ => rfl⟩,fun _ => rfl⟩
    refine why.imp_right (Or.imp_right fun hfree => ?_)
    rw [hfree] at hcount
    simpa using hcount
  | @added _ _ _ _ _ x free' j hfree hprice habsent =>
    rw [hfree,List.length_cons] at hcount
    refine ⟨⟨fun hr => by simp at hr,?_⟩,fun hr => by simp at hr⟩
    rintro (hp | hl | hc)
    · omega
    · exact absurd hl habsent
    · omega
  | unknown hc => simp at hc
  | removed hc => simp at hc

lemma Effect.refused_iff_not_live {free' : List ℕ} {queue' : Side → UInt64 → List ℕ} {c : BookCall}
    (h : Inv b free queue) (hc : c = .cancel id ∨ ∃ q, c = .modify id q)
    (heffect : Effect b free queue c r b' free' queue') :
    (r = false ↔ ¬ b.LiveId id) ∧ (r = false → b' = b) := by
  rw [h.liveId_iff]
  have hsame : ∀ {id' : UInt64}, c = .cancel id' ∨ (∃ q, c = .modify id' q) → id = id' := by
    intro id' hc'
    rcases hc with rfl | ⟨q,rfl⟩
    · simpa using hc'
    · simpa using hc'
  cases heffect with
  | refused => simp at hc
  | added => simp at hc
  | @unknown _ id' hc' habsent =>
    obtain rfl := hsame hc'
    exact ⟨⟨fun _ => habsent,fun _ => rfl⟩,fun _ => rfl⟩
  | @removed _ id' _ x j hc' hx hid =>
    obtain rfl := hsame (hc'.imp_right fun hc' => ⟨0,hc'⟩)
    simp [show Live b queue id from ⟨x,hx,hid⟩]
  | @increased id' q _ x hx hid =>
    obtain rfl := hsame (.inr ⟨q,rfl⟩)
    simp [show Live b queue id from ⟨x,hx,hid⟩]
  | @reduced id' q _ x hx hid =>
    obtain rfl := hsame (.inr ⟨q,rfl⟩)
    simp [show Live b queue id from ⟨x,hx,hid⟩]

/-- In every reachable state a returning call answers false exactly when it is refused for a
reason its caller can know, and then the whole book is as before. -/
theorem run_call_refused_iff (maxOrders maxPrice : ℕ) (hmax : 1 ≤ maxOrders) (calls : List BookCall)
    (answers : List Bool) (b : LimitOrderBook)
    (hrun : run LimitOrderBook.call (init maxOrders maxPrice) calls = some (answers,b)) :
    (∀ id side price quantity r b', b.add id side price quantity = some (r,b') →
      (r = false ↔ maxPrice ≤ price.toNat ∨ b.LiveId id ∨ b.liveOrders = maxOrders) ∧
      (r = false → b' = b)) ∧
    (∀ id r b', b.cancel id = some (r,b') → (r = false ↔ ¬ b.LiveId id) ∧ (r = false → b' = b)) ∧
    ∀ id q r b', b.modify id q = some (r,b') → (r = false ↔ ¬ b.LiveId id) ∧ (r = false → b' = b) := by
  obtain ⟨rfl,rfl,free,queue,h⟩ := valid_of_run hmax hrun
  refine ⟨?_,?_,?_⟩
  · intro id side price quantity r b' hcall
    obtain ⟨free',queue',heffect,_⟩ := h.call_effect (c := .add id side price quantity) hcall
    exact heffect.add_refused_iff h
  · intro id r b' hcall
    obtain ⟨free',queue',heffect,_⟩ := h.call_effect (c := .cancel id) hcall
    exact heffect.refused_iff_not_live h (.inl rfl)
  · intro id q r b' hcall
    obtain ⟨free',queue',heffect,_⟩ := h.call_effect (c := .modify id q) hcall
    exact heffect.refused_iff_not_live h (.inr ⟨q,rfl⟩)

/-- A full book of capacity two after a cancel and a re-add over the freed slot. -/
theorem run_call_refused_iff_full : ∃ b,
    run LimitOrderBook.call (init 2 10) [.add 1 .buy 5 100,.add 5 .buy 5 50,.cancel 1,.add 9 .sell 3 7] =
      some ([true,true,true,true],b) ∧
    (∀ id side price quantity r b', b.add id side price quantity = some (r,b') →
      (r = false ↔ 10 ≤ price.toNat ∨ b.LiveId id ∨ b.liveOrders = 2) ∧ (r = false → b' = b)) ∧
    (∀ id r b', b.cancel id = some (r,b') → (r = false ↔ ¬ b.LiveId id) ∧ (r = false → b' = b)) ∧
    ∀ id q r b', b.modify id q = some (r,b') → (r = false ↔ ¬ b.LiveId id) ∧ (r = false → b' = b) :=
  run_exists_of_answers rfl fun b hb => run_call_refused_iff 2 10 (by decide) _ _ b hb

end TickToTrade.LimitOrderBook
