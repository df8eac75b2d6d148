import TickToTrade.Library.ProbeLoop
import Mathlib.Data.Finset.Card
import Mathlib.Data.Finset.Range

/-! Linear-probing tables with tombstones, over arbitrary keys and values. A table of capacity
`cap` is a function on slot indices of which only those below `cap` matter. -/
namespace TickToTrade.Probing

/-- What one slot of a table holds. -/
inductive Slot (κ ν : Type*)
  | empty
  | tomb
  | live (key : κ) (value : ν)
  deriving DecidableEq

def Slot.value? {κ ν : Type*} : Slot κ ν → Option ν
  | .live _ v => some v
  | _ => none

variable {κ ν : Type*} (cap : ℕ) (hash : κ → ℕ)

/-- The key is stored with the value in some slot of the table. -/
def Maps (t : ℕ → Slot κ ν) (k : κ) (v : ν) : Prop := ∃ i < cap, t i = .live k v

/-- No key is live twice, and no empty slot interrupts the probe path to a live key. -/
structure WellFormed (t : ℕ → Slot κ ν) : Prop where
  unique : ∀ i < cap, ∀ j < cap, ∀ k v w, t i = .live k v → t j = .live k w → i = j
  path : ∀ d < cap, ∀ k v, t ((hash k + d) % cap) = .live k v →
    ∀ e < d, t ((hash k + e) % cap) ≠ .empty

variable {cap hash} {t : ℕ → Slot κ ν} {k : κ} {v : ν} {i : ℕ}

lemma wellFormed_empty : WellFormed cap hash (fun _ => (.empty : Slot κ ν)) := by
  constructor
  · intro i _ j _ k v w h
    contradiction
  · intro d _ k v h
    contradiction

lemma probe_offset (hash : κ → ℕ) (k : κ) (cap d : ℕ) :
    (hash k % cap + d) % cap = (hash k + d) % cap := Nat.mod_add_mod _ _ _

section Updates
variable (hwf : WellFormed cap hash t) (hi : i < cap)
include hwf

theorem WellFormed.erase (i : ℕ) : WellFormed cap hash (Function.update t i .tomb) := by
  have hold : ∀ j k' w, Function.update t i .tomb j = .live k' w → t j = .live k' w := by
    intro j k' w h
    by_cases hj : j = i
    · rw [hj,Function.update_self] at h
      contradiction
    · rwa [Function.update_of_ne hj] at h
  constructor
  · intro x hx y hy k' v' w' hxl hyl
    exact hwf.unique x hx y hy k' v' w' (hold _ _ _ hxl) (hold _ _ _ hyl)
  · intro d hd k' v' hlive e he
    by_cases hei : (hash k' + e) % cap = i
    · rw [hei,Function.update_self]
      simp
    · rw [Function.update_of_ne hei]
      exact hwf.path d hd k' v' (hold _ _ _ hlive) e he

theorem WellFormed.overwrite (hlive : t i = .live k v) (w : ν) :
    WellFormed cap hash (Function.update t i (.live k w)) := by
  have hold : ∀ j k' w', Function.update t i (.live k w) j = .live k' w' → ∃ w'', t j = .live k' w'' := by
    intro j k' w' h
    by_cases hj : j = i
    · subst j
      rw [Function.update_self] at h
      cases h
      exact ⟨v,hlive⟩
    · rw [Function.update_of_ne hj] at h
      exact ⟨w',h⟩
  constructor
  · intro x hx y hy k' v' w' hxl hyl
    obtain ⟨_,hx'⟩ := hold _ _ _ hxl
    obtain ⟨_,hy'⟩ := hold _ _ _ hyl
    exact hwf.unique x hx y hy k' _ _ hx' hy'
  · intro d hd k' v' hl e he
    obtain ⟨_,hl'⟩ := hold _ _ _ hl
    by_cases hei : (hash k' + e) % cap = i
    · rw [hei,Function.update_self]
      simp
    · rw [Function.update_of_ne hei]
      exact hwf.path d hd k' _ hl' e he

include hi in
theorem maps_erase (hlive : t i = .live k v) (k' : κ) (w : ν) :
    Maps cap (Function.update t i .tomb) k' w ↔ k' ≠ k ∧ Maps cap t k' w := by
  constructor
  · rintro ⟨j,hj,h⟩
    by_cases hji : j = i
    · rw [hji,Function.update_self] at h
      contradiction
    · rw [Function.update_of_ne hji] at h
      refine ⟨?_,j,hj,h⟩
      rintro rfl
      exact hji (hwf.unique j hj i hi k' w v h hlive)
  · rintro ⟨hk,j,hj,h⟩
    refine ⟨j,hj,?_⟩
    rw [Function.update_of_ne ?_,h]
    rintro rfl
    rw [hlive] at h
    cases h
    exact hk rfl

include hi in
theorem maps_overwrite (hlive : t i = .live k v) (w : ν) (k' : κ) (w' : ν) :
    Maps cap (Function.update t i (.live k w)) k' w' ↔
      (k' = k ∧ w' = w) ∨ (k' ≠ k ∧ Maps cap t k' w') := by
  constructor
  · rintro ⟨j,hj,h⟩
    by_cases hji : j = i
    · rw [hji,Function.update_self] at h
      cases h
      exact .inl ⟨rfl,rfl⟩
    · rw [Function.update_of_ne hji] at h
      refine .inr ⟨?_,j,hj,h⟩
      rintro rfl
      exact hji (hwf.unique j hj i hi k' w' v h hlive)
  · rintro (⟨rfl,rfl⟩ | ⟨hk,j,hj,h⟩)
    · exact ⟨i,hi,Function.update_self ..⟩
    · refine ⟨j,hj,?_⟩
      rw [Function.update_of_ne ?_,h]
      rintro rfl
      rw [hlive] at h
      cases h
      exact hk rfl

end Updates

section Counting
variable (hwf : WellFormed cap hash t) {keys : Finset κ} (hkeys : ∀ k, k ∈ keys ↔ ∃ v, Maps cap t k v)
include hwf hkeys

open Classical in
/-- A table has as many live slots as keys. -/
lemma card_live_slots : ((Finset.range cap).filter fun i => ∃ k v, t i = .live k v).card = keys.card := by
  have hlive : ∀ i, i ∈ (Finset.range cap).filter (fun i => ∃ k v, t i = .live k v) ↔
      ∃ k v, i < cap ∧ t i = .live k v := by
    intro i
    rw [Finset.mem_filter,Finset.mem_range]
    constructor
    · intro ⟨hi,k,v,hslot⟩
      exact ⟨k,v,hi,hslot⟩
    · intro ⟨k,v,hi,hslot⟩
      exact ⟨hi,k,v,hslot⟩
  refine Finset.card_bij (fun i hi => ((hlive i).mp hi).choose) ?_ ?_ ?_
  · intro i hi
    obtain ⟨v,hi',hslot⟩ := ((hlive i).mp hi).choose_spec
    exact (hkeys _).mpr ⟨v,i,hi',hslot⟩
  · intro i hi j hj hij
    obtain ⟨v,hi',hi''⟩ := ((hlive i).mp hi).choose_spec
    obtain ⟨w,hj',hj''⟩ := ((hlive j).mp hj).choose_spec
    rw [← hij] at hj''
    exact hwf.unique i hi' j hj' _ v w hi'' hj''
  · intro k hk
    obtain ⟨v,i,hi,hslot⟩ := (hkeys k).mp hk
    have hmem := (hlive i).mpr ⟨k,v,hi,hslot⟩
    obtain ⟨w,_,hslot'⟩ := ((hlive i).mp hmem).choose_spec
    exact ⟨i,hmem,(Slot.live.inj (hslot.symm.trans hslot')).1.symm⟩

/-- So some slot is not live exactly while there are fewer keys than slots. -/
theorem exists_free_iff_card_lt : (∃ i < cap, ∀ k v, t i ≠ .live k v) ↔ keys.card < cap := by
  classical
  rw [← card_live_slots hwf hkeys]
  constructor
  · intro ⟨i,hi,hfree⟩
    calc ((Finset.range cap).filter fun i => ∃ k v, t i = .live k v).card < (Finset.range cap).card := by
          apply Finset.card_lt_card
          refine Finset.filter_ssubset.mpr ⟨i,Finset.mem_range.mpr hi,?_⟩
          simpa using hfree
      _ = cap := Finset.card_range cap
  · intro hlt
    by_contra hnone
    rw [Finset.filter_true_of_mem,Finset.card_range] at hlt
    · exact absurd hlt (lt_irrefl cap)
    · intro i hi
      by_contra hfree
      exact hnone ⟨i,Finset.mem_range.mp hi,by simpa using hfree⟩

/-- Without tombstones such a slot is empty. -/
theorem exists_empty_iff_card_lt (htomb : ∀ i < cap, t i ≠ .tomb) :
    (∃ i < cap, t i = .empty) ↔ keys.card < cap := by
  rw [← exists_free_iff_card_lt hwf hkeys]
  constructor
  · intro ⟨i,hi,hempty⟩
    exact ⟨i,hi,by simp [hempty]⟩
  · intro ⟨i,hi,hfree⟩
    refine ⟨i,hi,?_⟩
    cases hslot : t i with
    | empty => rfl
    | tomb => exact absurd hslot (htomb i hi)
    | live k v => exact absurd hslot (hfree k v)

end Counting

section Lookup
variable [DecidableEq κ]

/-- Exit test of a lookup: at an empty slot with nothing, at a live slot of the key with it. -/
def locateBody (t : ℕ → Slot κ ν) (k : κ) (i : ℕ) : Option (Option ℕ) :=
  match t i with
  | .empty => some none
  | .tomb => none
  | .live k' _ => if k' = k then some (some i) else none

variable (cap hash) in
/-- Lookup: the slot that holds the key, `some none` when it is found absent, `none` when the
loop does not end. -/
def locate (t : ℕ → Slot κ ν) (k : κ) : Option (Option ℕ) :=
  probeLoop cap (locateBody t k) cap (hash k % cap)

/-- Exit test of an insertion: the first slot that is not live with another key. -/
def placeBody (t : ℕ → Slot κ ν) (k : κ) (i : ℕ) : Option ℕ :=
  match t i with
  | .empty => some i
  | .tomb => some i
  | .live k' _ => if k' = k then some i else none

variable (cap hash) in
/-- The slot an insertion writes, or `none` when its loop does not end. -/
def place (t : ℕ → Slot κ ν) (k : κ) : Option ℕ :=
  probeLoop cap (placeBody t k) cap (hash k % cap)

lemma locateBody_eq_none_iff :
    locateBody t k i = none ↔ t i ≠ .empty ∧ ∀ w, t i ≠ .live k w := by
  unfold locateBody
  cases h : t i with
  | empty => simp
  | tomb => simp
  | live k' w => by_cases hk : k' = k <;> simp [hk]

lemma locateBody_eq_some_none_iff : locateBody t k i = some none ↔ t i = .empty := by
  unfold locateBody
  cases h : t i with
  | empty => simp
  | tomb => simp
  | live k' w => by_cases hk : k' = k <;> simp [hk]

lemma locateBody_eq_some_some_iff {j : ℕ} :
    locateBody t k i = some (some j) ↔ j = i ∧ ∃ w, t i = .live k w := by
  unfold locateBody
  cases h : t i with
  | empty => simp
  | tomb => simp
  | live k' w =>
    by_cases hk : k' = k
    · simp [hk,eq_comm]
    · simp [hk]

theorem locate_sound (hcap : 0 < cap) (h : locate cap hash t k = some (some i)) :
    i < cap ∧ ∃ v, t i = .live k v := by
  obtain ⟨d,_,hd,_⟩ := (probeLoop_eq_some_iff (Nat.mod_lt _ hcap)).mp h
  obtain ⟨rfl,w,hw⟩ := locateBody_eq_some_some_iff.mp hd
  exact ⟨Nat.mod_lt _ hcap,w,hw⟩

theorem locate_of_live (hwf : WellFormed cap hash t) (hi : i < cap) (hlive : t i = .live k v) :
    locate cap hash t k = some (some i) := by
  have hcap : 0 < cap := by omega
  obtain ⟨d,hd,hdi⟩ := exists_offset (hash k) hi
  refine (probeLoop_eq_some_iff (Nat.mod_lt _ hcap)).mpr ⟨d,hd,?_,?_⟩
  · rw [probe_offset,locateBody_eq_some_some_iff]
    exact ⟨hdi.symm,v,by rw [hdi,hlive]⟩
  · intro e he
    rw [probe_offset,locateBody_eq_none_iff]
    refine ⟨hwf.path d hd k v (by rw [hdi,hlive]) e he,fun w hw => ?_⟩
    have heq := hwf.unique _ (Nat.mod_lt _ hcap) _ hi k w v hw hlive
    rw [← hdi] at heq
    have := offset_injective (by omega) hd heq
    omega

theorem locate_absent_isSome_iff (hcap : 0 < cap) (habsent : ∀ v, ¬ Maps cap t k v) :
    (locate cap hash t k).isSome ↔ ∃ i < cap, t i = .empty := by
  constructor
  · intro h
    obtain ⟨r,hr⟩ := Option.isSome_iff_exists.mp h
    obtain ⟨d,_,hd,_⟩ := (probeLoop_eq_some_iff (Nat.mod_lt _ hcap)).mp hr
    cases r with
    | none => exact ⟨_,Nat.mod_lt _ hcap,locateBody_eq_some_none_iff.mp hd⟩
    | some i =>
      obtain ⟨_,w,hw⟩ := locateBody_eq_some_some_iff.mp hd
      exact absurd ⟨_,Nat.mod_lt _ hcap,hw⟩ (habsent w)
  · rintro ⟨i,hi,hempty⟩
    rw [Option.isSome_iff_ne_none]
    intro hnone
    obtain ⟨d,hd,hdi⟩ := exists_offset (hash k) hi
    have hbody := (probeLoop_eq_none_iff (Nat.mod_lt _ hcap)).mp hnone d hd
    rw [probe_offset,hdi,locateBody_eq_none_iff] at hbody
    exact hbody.1 hempty

/-- The exact termination condition of a lookup. -/
theorem locate_isSome_iff (hcap : 0 < cap) (hwf : WellFormed cap hash t) :
    (locate cap hash t k).isSome ↔ (∃ v, Maps cap t k v) ∨ ∃ i < cap, t i = .empty := by
  by_cases hk : ∃ v, Maps cap t k v
  · obtain ⟨v,i,hi,hv⟩ := hk
    simp only [locate_of_live hwf hi hv,Option.isSome_some,true_iff]
    exact .inl ⟨v,i,hi,hv⟩
  · rw [locate_absent_isSome_iff hcap (by simpa using hk)]
    simp [hk]

lemma placeBody_eq_some_iff {j : ℕ} :
    placeBody t k i = some j ↔ j = i ∧ ∀ k' w, t i = .live k' w → k' = k := by
  unfold placeBody
  cases h : t i with
  | empty => simp [eq_comm]
  | tomb => simp [eq_comm]
  | live k' w =>
    by_cases hk : k' = k
    · simp [hk,eq_comm]
    · simp [hk]

lemma placeBody_eq_none_iff :
    placeBody t k i = none ↔ ∃ k' w, t i = .live k' w ∧ k' ≠ k := by
  unfold placeBody
  cases h : t i with
  | empty => simp
  | tomb => simp
  | live k' w => by_cases hk : k' = k <;> simp [hk]

/-- The slot an insertion writes is not live with another key, and every slot probed before it is. -/
theorem place_spec (hcap : 0 < cap) (h : place cap hash t k = some i) :
    ∃ d < cap, i = (hash k + d) % cap ∧ (∀ k' w, t i = .live k' w → k' = k) ∧
      ∀ e < d, ∃ k' w, t ((hash k + e) % cap) = .live k' w ∧ k' ≠ k := by
  obtain ⟨d,hd,hbody,hbefore⟩ := (probeLoop_eq_some_iff (Nat.mod_lt _ hcap)).mp h
  simp only [probe_offset] at hbody hbefore
  obtain ⟨rfl,hslot⟩ := placeBody_eq_some_iff.mp hbody
  exact ⟨d,hd,rfl,hslot,fun e he => placeBody_eq_none_iff.mp (hbefore e he)⟩

theorem place_isSome (hash : κ → ℕ) (k : κ) (hcap : 0 < cap) (hi : i < cap) (hfree : ∀ k' w, t i ≠ .live k' w) :
    (place cap hash t k).isSome := by
  rw [Option.isSome_iff_ne_none]
  intro hnone
  obtain ⟨d,hd,hdi⟩ := exists_offset (hash k) hi
  have hbody := (probeLoop_eq_none_iff (Nat.mod_lt _ hcap)).mp hnone d hd
  rw [probe_offset,hdi] at hbody
  obtain ⟨k',w,hlive,_⟩ := placeBody_eq_none_iff.mp hbody
  exact hfree k' w hlive

theorem WellFormed.insert (hwf : WellFormed cap hash t) (habsent : ∀ w, ¬ Maps cap t k w) (hplace : place cap hash t k = some i)
    (hcap : 0 < cap) (v : ν) : WellFormed cap hash (Function.update t i (.live k v)) := by
  obtain ⟨d,hd,rfl,hslot,hbefore⟩ := place_spec hcap hplace
  constructor
  · intro x hx y hy k' v' w' hxl hyl
    by_cases hxi : x = (hash k + d) % cap <;> by_cases hyi : y = (hash k + d) % cap
    · rw [hxi,hyi]
    · rw [hxi,Function.update_self] at hxl
      rw [Function.update_of_ne hyi] at hyl
      cases hxl
      exact absurd ⟨y,hy,hyl⟩ (habsent w')
    · rw [hyi,Function.update_self] at hyl
      rw [Function.update_of_ne hxi] at hxl
      cases hyl
      exact absurd ⟨x,hx,hxl⟩ (habsent v')
    · rw [Function.update_of_ne hxi] at hxl
      rw [Function.update_of_ne hyi] at hyl
      exact hwf.unique x hx y hy k' v' w' hxl hyl
  · intro d' hd' k' v' hlive e he
    by_cases hei : (hash k' + e) % cap = (hash k + d) % cap
    · rw [hei,Function.update_self]
      simp
    · rw [Function.update_of_ne hei]
      by_cases hdi : (hash k' + d') % cap = (hash k + d) % cap
      · -- the new entry: everything probed before it was live
        rw [hdi,Function.update_self] at hlive
        cases hlive
        obtain rfl := offset_injective hd' hd hdi
        obtain ⟨k₁,w,hw,_⟩ := hbefore e he
        simp [hw]
      · rw [Function.update_of_ne hdi] at hlive
        exact hwf.path d' hd' k' v' hlive e he

theorem maps_insert (hcap : 0 < cap) (habsent : ∀ w, ¬ Maps cap t k w)
    (hplace : place cap hash t k = some i) (v : ν) (k' : κ) (w : ν) :
    Maps cap (Function.update t i (.live k v)) k' w ↔ (k' = k ∧ w = v) ∨ Maps cap t k' w := by
  obtain ⟨d,_,rfl,hslot,_⟩ := place_spec hcap hplace
  have hi := Nat.mod_lt (hash k + d) hcap
  constructor
  · rintro ⟨j,hj,h⟩
    by_cases hji : j = (hash k + d) % cap
    · rw [hji,Function.update_self] at h
      cases h
      exact .inl ⟨rfl,rfl⟩
    · rw [Function.update_of_ne hji] at h
      exact .inr ⟨j,hj,h⟩
  · rintro (⟨rfl,rfl⟩ | ⟨j,hj,h⟩)
    · exact ⟨_,hi,Function.update_self ..⟩
    · refine ⟨j,hj,?_⟩
      rw [Function.update_of_ne ?_,h]
      rintro rfl
      obtain rfl := hslot k' w h
      exact habsent w ⟨_,hj,h⟩

end Lookup
end TickToTrade.Probing
