import TickToTrade.OrderBook.Table
import TickToTrade.Library.Run
import Mathlib.Data.Finmap

/-! The order map on its own, for any capacity: insertions of absent ids and erasures keep it a finite
map from id to order, although erased entries stay behind as tombstones with their keys. -/
namespace TickToTrade
open Probing

inductive MapCall
  | insert (id : UInt64) (order : ℕ)
  | erase (id : UInt64)
  deriving DecidableEq, Repr

namespace LimitOrderBook

def mapCall (b : LimitOrderBook) : MapCall → Option LimitOrderBook
  | .insert id order => b.mapInsert id order
  | .erase id => b.mapErase id

end LimitOrderBook

/-- What a call means for the map. -/
def MapCall.apply (m : Finmap (fun _ : UInt64 => ℕ)) : MapCall → Finmap (fun _ : UInt64 => ℕ)
  | .insert id order => m.insert id order
  | .erase id => m.erase id

/-- The ids present after the calls, each with the order inserted last. -/
def presentAfter (calls : List MapCall) : Finmap (fun _ : UInt64 => ℕ) := calls.foldl MapCall.apply ∅

/-- Each insertion is of an absent id, with fewer ids present than there are entries. -/
def InsertsAbsent (capacity : ℕ) (m : Finmap (fun _ : UInt64 => ℕ)) (calls : List MapCall) : Prop :=
  ∀ pre id order post, calls = pre ++ .insert id order :: post →
    id ∉ pre.foldl MapCall.apply m ∧ (pre.foldl MapCall.apply m).keys.card < capacity

lemma insertsAbsent_cons_iff {capacity : ℕ} {m : Finmap (fun _ : UInt64 => ℕ)} {c : MapCall} {calls : List MapCall} :
    InsertsAbsent capacity m (c :: calls) ↔
      (∀ id order, c = .insert id order → id ∉ m ∧ m.keys.card < capacity) ∧
        InsertsAbsent capacity (c.apply m) calls := by
  constructor
  · intro h
    constructor
    · intro id order hc
      exact h [] id order calls (by rw [hc]; rfl)
    · intro pre id order post hpre
      exact h (c :: pre) id order post (by rw [hpre,List.cons_append])
  · intro h pre id order post hpre
    cases pre with
    | nil =>
      obtain ⟨hc,_⟩ := List.cons.inj hpre
      exact h.1 id order hc
    | cons first pre =>
      obtain ⟨rfl,hrest⟩ := List.cons.inj hpre
      exact h.2 pre id order post hrest

instance decidableInsertsAbsent (capacity : ℕ) :
    (m : Finmap (fun _ : UInt64 => ℕ)) → (calls : List MapCall) → Decidable (InsertsAbsent capacity m calls)
  | m, [] => .isTrue fun pre _ _ _ hpre => by simp at hpre
  | m, .insert id order :: calls =>
    have := decidableInsertsAbsent capacity (m.insert id order) calls
    decidable_of_iff ((id ∉ m ∧ m.keys.card < capacity) ∧ InsertsAbsent capacity (m.insert id order) calls) (by
      rw [insertsAbsent_cons_iff]
      simp [MapCall.apply])
  | m, .erase id :: calls =>
    have := decidableInsertsAbsent capacity (m.erase id) calls
    decidable_of_iff (InsertsAbsent capacity (m.erase id) calls) (by
      rw [insertsAbsent_cons_iff]
      simp [MapCall.apply])

/-- The entries hold exactly the ids of the map. A present id has one live entry, no null entry lies on
the way to it and the search finds it; an absent id has none, and no search that ends finds it. -/
structure IsFiniteMap (b : LimitOrderBook) (m : Finmap (fun _ : UInt64 => ℕ)) : Prop where
  present : ∀ id order, m.lookup id = some order → ∃ d < b.mapCapacity,
    b.orderMap ((id.toNat + d) % b.mapCapacity) = ⟨id,.order order⟩ ∧
    (∀ i < b.mapCapacity, ∀ q, b.orderMap i = ⟨id,.order q⟩ → i = (id.toNat + d) % b.mapCapacity) ∧
    (∀ e ≤ d, (b.orderMap ((id.toNat + e) % b.mapCapacity)).value ≠ .null) ∧
    b.mapFind id = some (some order)
  absent : ∀ id, id ∉ m → (∀ i < b.mapCapacity, ∀ q, b.orderMap i ≠ ⟨id,.order q⟩) ∧
    ∀ found, b.mapFind id = some found → found = none

/-- The table of the book stands for the map. -/
structure Implements (b : LimitOrderBook) (capacity : ℕ) (m : Finmap (fun _ : UInt64 => ℕ)) : Prop where
  capacity_eq : b.mapCapacity = capacity
  wellFormed : WellFormed capacity UInt64.toNat b.table
  maps : ∀ id order, Maps capacity b.table id order ↔ m.lookup id = some order

section Entries
variable {b b' : LimitOrderBook} {capacity : ℕ} {m : Finmap (fun _ : UInt64 => ℕ)} {id : UInt64} {i order : ℕ}

lemma implements_of_null (hnull : ∀ i < b.mapCapacity, (b.orderMap i).value = .null) (hcap : 1 ≤ b.mapCapacity) :
    Implements b b.mapCapacity ∅ := by
  have hlive : ∀ i < b.mapCapacity, ∀ k v, b.table i ≠ .live k v := by
    intro i hi k v
    rw [(b.table_eq_empty_iff i).mpr (hnull i hi)]
    simp
  refine ⟨rfl,⟨?_,?_⟩,?_⟩
  · intro i hi j _ k v w h
    exact absurd h (hlive i hi k v)
  · intro d _ k v h
    exact absurd h (hlive _ (Nat.mod_lt _ hcap) k v)
  · intro id order
    constructor
    · intro ⟨i,hi,h⟩
      exact absurd h (hlive i hi id order)
    · intro h
      simp at h

section Step
variable (h : Implements b capacity m) (hcap : 1 ≤ capacity)
include h

lemma Implements.not_maps (habsent : id ∉ m) (order : ℕ) : ¬ Maps capacity b.table id order := by
  rw [h.maps,Finmap.lookup_eq_none.mpr habsent]
  simp

lemma Implements.mapErase_isSome (hpresent : id ∈ m) : (b.mapErase id).isSome := by
  have hcapacity := h.capacity_eq
  subst hcapacity
  obtain ⟨order,horder⟩ := Finmap.mem_iff.mp hpresent
  obtain ⟨_,_,_,herase⟩ := LimitOrderBook.mapErase_of_maps h.wellFormed ((h.maps id order).mpr horder)
  rw [herase]
  rfl

include hcap

lemma Implements.mapInsert (habsent : id ∉ m) (hfew : m.keys.card < capacity) (order : ℕ) :
    ∃ b', b.mapInsert id order = some b' ∧ Implements b' capacity (m.insert id order) := by
  have hcapacity := h.capacity_eq
  subst hcapacity
  have hkeys : ∀ k, k ∈ m.keys ↔ ∃ v, Maps b.mapCapacity b.table k v := by
    intro k
    simp only [h.maps,Finmap.mem_keys,← Finmap.lookup_isSome,Option.isSome_iff_exists]
  obtain ⟨j,hj,hfree⟩ := (exists_free_iff_card_lt h.wellFormed hkeys).mpr hfew
  obtain ⟨i,hplace,hinsert⟩ := b.mapInsert_of_free id hcap hj hfree order
  have hnot := h.not_maps habsent
  have htable : (b.setEntry i ⟨id,.order order⟩).table = Function.update b.table i (.live id order) :=
    b.table_setEntry i _
  refine ⟨_,hinsert,rfl,?_,?_⟩
  · rw [htable]
    exact h.wellFormed.insert hnot hplace hcap order
  · intro id' order'
    rw [htable,maps_insert hcap hnot hplace,h.maps]
    by_cases hid : id' = id
    · rw [hid,Finmap.lookup_insert,Finmap.lookup_eq_none.mpr habsent]
      simp [eq_comm]
    · rw [Finmap.lookup_insert_of_ne _ hid]
      simp [hid]

lemma Implements.mapErase (herase : b.mapErase id = some b') : Implements b' capacity (m.erase id) := by
  have hcapacity := h.capacity_eq
  subst hcapacity
  have hlookup : ∀ id' order', (m.erase id).lookup id' = some order' ↔ id' ≠ id ∧ m.lookup id' = some order' := by
    intro id' order'
    by_cases hid : id' = id
    · rw [hid,Finmap.lookup_erase]
      simp
    · rw [Finmap.lookup_erase_ne hid]
      simp [hid]
  by_cases hpresent : id ∈ m
  · obtain ⟨order,horder⟩ := Finmap.mem_iff.mp hpresent
    obtain ⟨i,hi,hlive,herase'⟩ := LimitOrderBook.mapErase_of_maps h.wellFormed ((h.maps id order).mpr horder)
    obtain rfl := Option.some.inj (herase'.symm.trans herase)
    have htable : (b.setEntry i { b.orderMap i with value := .tombstone }).table = Function.update b.table i .tomb :=
      b.table_setEntry i _
    refine ⟨rfl,?_,?_⟩
    · rw [htable]
      exact h.wellFormed.erase i
    · intro id' order'
      rw [htable,maps_erase h.wellFormed hi hlive,h.maps,hlookup]
  · -- the search has stopped at a null entry, so nothing has changed
    have hsame : b' = b := by
      rw [b.mapErase_eq] at herase
      obtain ⟨r,hr,hb'⟩ := Option.map_eq_some_iff.mp herase
      cases r with
      | none => exact hb'.symm
      | some i =>
        obtain ⟨hi,order,hlive⟩ := locate_sound hcap hr
        exact absurd ⟨i,hi,hlive⟩ (h.not_maps hpresent order)
    subst hsame
    refine ⟨rfl,h.wellFormed,?_⟩
    intro id' order'
    rw [h.maps,hlookup,iff_and_self]
    intro horder hid
    exact hpresent (hid ▸ Finmap.mem_iff.mpr ⟨order',horder⟩)

/-- What the table stands for shows in its entries and in every search. -/
lemma Implements.isFiniteMap : IsFiniteMap b m := by
  have hcapacity := h.capacity_eq
  subst hcapacity
  constructor
  · intro id order horder
    obtain ⟨i,hi,hlive⟩ := (h.maps id order).mpr horder
    obtain ⟨d,hd,rfl⟩ := exists_offset id.toNat hi
    refine ⟨d,hd,(b.table_eq_live_iff _ _ _).mp hlive,?_,?_,?_⟩
    · intro j hj q hq
      exact h.wellFormed.unique j hj _ hi id q order ((b.table_eq_live_iff _ _ _).mpr hq) hlive
    · intro e he hnull
      rcases Nat.lt_or_eq_of_le he with hlt | rfl
      · exact h.wellFormed.path d hd id order hlive e hlt ((b.table_eq_empty_iff _).mpr hnull)
      · rw [(b.table_eq_empty_iff _).mpr hnull] at hlive
        contradiction
    · exact (LimitOrderBook.mapFind_eq_some_some_iff h.wellFormed hcap).mpr ⟨_,hi,hlive⟩
  · intro id habsent
    have hnot := h.not_maps habsent
    constructor
    · intro i hi q hq
      exact hnot q ⟨i,hi,(b.table_eq_live_iff _ _ _).mpr hq⟩
    · intro found hfound
      cases found with
      | none => rfl
      | some order => exact absurd ((LimitOrderBook.mapFind_eq_some_some_iff h.wellFormed hcap).mp hfound) (hnot order)

lemma Implements.mapCall {c : MapCall} {calls : List MapCall} (hinserts : InsertsAbsent capacity m (c :: calls))
    (hcall : b.mapCall c = some b') : Implements b' capacity (c.apply m) := by
  cases c with
  | insert id order =>
    obtain ⟨habsent,hfew⟩ := (insertsAbsent_cons_iff.mp hinserts).1 id order rfl
    obtain ⟨b₁,hinsert,h₁⟩ := h.mapInsert hcap habsent hfew order
    obtain rfl := Option.some.inj (hinsert.symm.trans hcall)
    exact h₁
  | erase id => exact h.mapErase hcap hcall

end Step

lemma Implements.mapCalls (calls : List MapCall) {b : LimitOrderBook} {m : Finmap (fun _ : UInt64 => ℕ)}
    (h : Implements b capacity m) (hcap : 1 ≤ capacity) (hinserts : InsertsAbsent capacity m calls)
    (hrun : calls.foldlM LimitOrderBook.mapCall b = some b') :
    Implements b' capacity (calls.foldl MapCall.apply m) := by
  induction calls generalizing b m with
  | nil =>
    obtain rfl := Option.some.inj hrun
    exact h
  | cons c calls ih =>
    rw [List.foldlM_cons] at hrun
    obtain ⟨b₁,hcall,hrun⟩ := Option.bind_eq_some_iff.mp hrun
    exact ih (h.mapCall hcap hinserts hcall) (insertsAbsent_cons_iff.mp hinserts).2 hrun

end Entries

/-- From an empty table of any capacity, in every sequence of erasures and of insertions of absent ids
below the capacity, every insertion and every erasure of a present id ends, and after every call that
has ended the table is the finite map that the calls describe. -/
theorem mapCalls_finite_map (b : LimitOrderBook) (hcap : 1 ≤ b.mapCapacity)
    (hnull : ∀ i < b.mapCapacity, (b.orderMap i).value = .null) (calls : List MapCall)
    (hinserts : InsertsAbsent b.mapCapacity ∅ calls) :
    (∀ pre id order post, calls = pre ++ .insert id order :: post →
      ∀ b₁, pre.foldlM LimitOrderBook.mapCall b = some b₁ → (b₁.mapInsert id order).isSome) ∧
    (∀ pre id post, calls = pre ++ .erase id :: post → id ∈ presentAfter pre →
      ∀ b₁, pre.foldlM LimitOrderBook.mapCall b = some b₁ → (b₁.mapErase id).isSome) ∧
    ∀ pre post, calls = pre ++ post → ∀ b₁, pre.foldlM LimitOrderBook.mapCall b = some b₁ →
      b₁.mapCapacity = b.mapCapacity ∧ IsFiniteMap b₁ (presentAfter pre) := by
  have hreached : ∀ pre post, calls = pre ++ post → ∀ b₁, pre.foldlM LimitOrderBook.mapCall b = some b₁ →
      Implements b₁ b.mapCapacity (presentAfter pre) := by
    intro pre post hpre b₁ hrun
    refine (implements_of_null hnull hcap).mapCalls pre hcap ?_ hrun
    intro pre' id order post' hpre'
    exact hinserts pre' id order (post' ++ post) (by rw [hpre,hpre']; simp)
  refine ⟨?_,?_,?_⟩
  · intro pre id order post hpre b₁ hrun
    obtain ⟨habsent,hfew⟩ := hinserts pre id order post hpre
    obtain ⟨b₂,hinsert,_⟩ := (hreached pre _ hpre b₁ hrun).mapInsert hcap habsent hfew order
    rw [hinsert]
    rfl
  · intro pre id post hpre hpresent b₁ hrun
    exact (hreached pre _ hpre b₁ hrun).mapErase_isSome hpresent
  · intro pre post hpre b₁ hrun
    have h := hreached pre post hpre b₁ hrun
    exact ⟨h.capacity_eq,h.isFiniteMap hcap⟩

/-- Three entries, three ids with the same remainder: the second wraps around, and the third takes the
place of the first, which was erased. -/
theorem mapCalls_finite_map_reuse :
    let b : LimitOrderBook := { LimitOrderBook.init 1 1 with mapCapacity := 3 }
    let calls : List MapCall := [.insert 2 10,.insert 5 11,.erase 2,.insert 8 12]
    ∃ b₁, calls.foldlM LimitOrderBook.mapCall b = some b₁ ∧ IsFiniteMap b₁ (presentAfter calls) ∧
      b₁.mapFind 8 = some (some 12) ∧ b₁.mapFind 5 = some (some 11) ∧ b₁.mapFind 2 = some none := by
  intro b calls
  refine exists_of_isSome (by decide +kernel) fun b₁ hrun => ?_
  have hmap := (mapCalls_finite_map b (by decide) (fun _ _ => rfl) calls (by decide +kernel)).2.2 calls []
    (List.append_nil _).symm b₁ hrun
  have hfound : (calls.foldlM LimitOrderBook.mapCall b).map (fun b₁ => (b₁.mapFind 8,b₁.mapFind 5,b₁.mapFind 2)) =
      some (some (some 12),some (some 11),some none) := by decide +kernel
  rw [hrun] at hfound
  exact ⟨hmap.2,by simpa using hfound⟩

end TickToTrade
