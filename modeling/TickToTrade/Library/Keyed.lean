import TickToTrade.Library.Run
import Mathlib.Data.List.Zip

/-! Machines that keep one state for each key. A call acts on the state of its own key only, so
what a key answers and where it ends depends on its own calls alone, in their order. -/
namespace TickToTrade.Keyed

variable {κ σ α ρ : Type*} [DecidableEq κ] (key : α → κ) (next : σ → α → ρ × σ)

/-- The machine that lets each call act on the state under its key. -/
def keyedNext (f : κ → σ) (a : α) : ρ × (κ → σ) :=
  ((next (f (key a)) a).1,Function.update f (key a) (next (f (key a)) a).2)

/-- The calls for one key. -/
def callsFor (k : κ) (as : List α) : List α := as.filter fun a => key a = k

/-- The answers given to the calls for one key. -/
def answersFor (k : κ) (as : List α) (rs : List ρ) : List ρ :=
  ((as.zip rs).filter fun p => key p.1 = k).map Prod.snd

/-- Seen from one key, the keyed machine runs the calls for that key. -/
theorem runTotal_keyedNext (f : κ → σ) (as : List α) (k : κ) :
    answersFor key k as (runTotal (keyedNext key next) f as).1 =
      (runTotal next (f k) (callsFor key k as)).1 ∧
    (runTotal (keyedNext key next) f as).2 k = (runTotal next (f k) (callsFor key k as)).2 := by
  induction as generalizing f with
  | nil => exact ⟨rfl,rfl⟩
  | cons a as ih =>
    obtain ⟨hanswers,hstate⟩ := ih (keyedNext key next f a).2
    by_cases hk : key a = k
    · subst hk
      simp only [keyedNext,Function.update_self] at hanswers hstate
      simpa [answersFor,callsFor,keyedNext] using ⟨hanswers,hstate⟩
    · have hother : (keyedNext key next f a).2 k = f k := Function.update_of_ne (Ne.symm hk) _ _
      rw [hother] at hanswers hstate
      simpa [answersFor,callsFor,hk] using ⟨hanswers,hstate⟩

lemma answersFor_append {as : List α} {rs : List ρ} (hlength : as.length = rs.length) (a : α) (r : ρ) (k : κ) :
    answersFor key k (as ++ [a]) (rs ++ [r]) = answersFor key k as rs ++ if key a = k then [r] else [] := by
  unfold answersFor
  rw [List.zip_append hlength,List.filter_append,List.map_append]
  by_cases hk : key a = k <;> simp [hk]

end TickToTrade.Keyed
