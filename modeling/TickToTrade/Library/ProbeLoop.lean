import Mathlib.Data.Nat.ModEq
import Mathlib.Tactic.Ring

/-! The cyclic probe loop of an open-addressing table: `while (true)` over the slots, leaving at
the first slot whose body exits. The table does not change while the loop runs, so a loop that
passes every slot once without leaving never leaves; one turn of fuel decides termination. -/
namespace TickToTrade.Probing

variable {β γ : Type*}

/-- `body index` is the value with which the loop exits at `index`, or `none` to go on to
`(index + 1) % cap`. The result is `none` when `fuel` iterations did not exit. -/
def probeLoop (cap : ℕ) (body : ℕ → Option β) : ℕ → ℕ → Option β
  | 0, _ => none
  | fuel+1, index =>
    match body index with
    | some r => some r
    | none => probeLoop cap body fuel ((index + 1) % cap)

lemma offset_succ (cap index k : ℕ) :
    ((index + 1) % cap + k) % cap = (index + (k + 1)) % cap := by
  rw [Nat.mod_add_mod]
  congr 1
  ring

/-- The loop exits with `r` exactly when some iteration within the fuel is the first to exit,
and it exits with `r`. -/
theorem probeLoop_eq_some_iff {cap : ℕ} {body : ℕ → Option β} {fuel index : ℕ} {r : β}
    (hindex : index < cap) : probeLoop cap body fuel index = some r ↔
      ∃ k < fuel, body ((index + k) % cap) = some r ∧ ∀ j < k, body ((index + j) % cap) = none := by
  induction fuel generalizing index with
  | zero => simp [probeLoop]
  | succ fuel ih =>
    have hself : (index + 0) % cap = index := by simpa using Nat.mod_eq_of_lt hindex
    have hnext : (index + 1) % cap < cap := Nat.mod_lt _ (by omega)
    cases hb : body index with
    | some r' =>
      simp only [probeLoop,hb]
      constructor
      · intro h
        exact ⟨0,by omega,by rw [hself,hb,h],by simp⟩
      · rintro ⟨k,-,hk,hbefore⟩
        cases k with
        | zero => rwa [hself,hb] at hk
        | succ k =>
          have h0 := hbefore 0 (by omega)
          rw [hself,hb] at h0
          contradiction
    | none =>
      simp only [probeLoop,hb,ih hnext,offset_succ]
      constructor
      · rintro ⟨k,hk,hr,hbefore⟩
        refine ⟨k+1,by omega,hr,fun j hj => ?_⟩
        cases j with
        | zero => rw [hself,hb]
        | succ j => exact hbefore j (by omega)
      · rintro ⟨k,hk,hr,hbefore⟩
        cases k with
        | zero => rw [hself,hb] at hr; contradiction
        | succ k => exact ⟨k,by omega,hr,fun j hj => hbefore (j+1) (by omega)⟩

/-- Out of fuel means that no iteration within it exits. -/
theorem probeLoop_eq_none_iff {cap : ℕ} {body : ℕ → Option β} {fuel index : ℕ}
    (hindex : index < cap) :
    probeLoop cap body fuel index = none ↔ ∀ k < fuel, body ((index + k) % cap) = none := by
  constructor
  · intro h k hk
    -- a first exit at or before `k` would be found within the fuel
    induction k using Nat.strong_induction_on with
    | _ k ih =>
      cases hb : body ((index + k) % cap) with
      | none => rfl
      | some r =>
        have hr : probeLoop cap body fuel index = some r :=
          (probeLoop_eq_some_iff hindex).mpr ⟨k,hk,hb,fun j hj => ih j hj (by omega)⟩
        rw [h] at hr
        contradiction
  · intro h
    rw [Option.eq_none_iff_forall_ne_some]
    intro r hr
    obtain ⟨k,hk,hb,-⟩ := (probeLoop_eq_some_iff hindex).mp hr
    rw [h k hk] at hb
    contradiction

lemma exists_offset {cap : ℕ} (start : ℕ) {i : ℕ} (hi : i < cap) :
    ∃ d < cap, (start + d) % cap = i := by
  have hstart := Nat.mod_lt start (by omega : 0 < cap)
  refine ⟨(i + (cap - start % cap)) % cap,Nat.mod_lt _ (by omega),?_⟩
  rw [Nat.add_mod_mod,← Nat.mod_add_mod]
  have h : start % cap + (i + (cap - start % cap)) = i + cap := by omega
  rw [h,Nat.add_mod_right,Nat.mod_eq_of_lt hi]

lemma offset_injective {cap start d e : ℕ} (hd : d < cap) (he : e < cap)
    (h : (start + d) % cap = (start + e) % cap) : d = e := by
  have hmod : d ≡ e [MOD cap] := Nat.ModEq.add_left_cancel' start h
  rwa [Nat.ModEq,Nat.mod_eq_of_lt hd,Nat.mod_eq_of_lt he] at hmod

/-- One turn decides: a loop that does not exit within `cap` iterations does not exit at all. -/
theorem probeLoop_diverges {cap : ℕ} {body : ℕ → Option β} {index : ℕ} (hindex : index < cap)
    (h : probeLoop cap body cap index = none) (fuel : ℕ) : probeLoop cap body fuel index = none := by
  rw [probeLoop_eq_none_iff hindex] at h ⊢
  intro k _
  obtain ⟨d,hd,heq⟩ := exists_offset index (Nat.mod_lt (index + k) (by omega : 0 < cap))
  rw [← heq]
  exact h d hd

theorem probeLoop_map (cap : ℕ) (body : ℕ → Option β) (f : β → γ) (fuel index : ℕ) :
    probeLoop cap (fun i => (body i).map f) fuel index = (probeLoop cap body fuel index).map f := by
  induction fuel generalizing index with
  | zero => rfl
  | succ fuel ih =>
    cases hb : body index with
    | some r => simp [probeLoop,hb]
    | none => simp [probeLoop,hb,ih]

end TickToTrade.Probing
