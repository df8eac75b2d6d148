import Mathlib.Logic.Function.Basic
import Mathlib.Data.List.Induction

/-! Runs of a partial step function. A step returns an answer and the next state, or `none`
when the call it models does not return; a run stops at the first such call. -/
namespace TickToTrade

variable {σ τ α ρ : Type*}

/-- Perform the calls one after another and collect their answers. -/
def run (step : σ → α → Option (ρ × σ)) : σ → List α → Option (List ρ × σ)
  | s, [] => some ([],s)
  | s, a :: as =>
    match step s a with
    | none => none
    | some (r,s') =>
      match run step s' as with
      | none => none
      | some (rs,t) => some (r :: rs,t)

variable {step : σ → α → Option (ρ × σ)} {s t : σ} {a : α} {as bs : List α} {r : ρ} {rs : List ρ}

@[simp] theorem run_nil : run step s [] = some ([],s) := rfl

/-- A run over a nonempty list of calls is one step and a run from the state it leaves. -/
theorem run_cons (step : σ → α → Option (ρ × σ)) (s : σ) (a : α) (as : List α) : run step s (a :: as) =
    (step s a).bind fun p => (run step p.2 as).map fun q => (p.1 :: q.1,q.2) := by
  rw [run]
  cases step s a with
  | none => rfl
  | some p => cases h : run step p.2 as <;> simp [h]

theorem run_cons_eq_some : run step s (a :: as) = some (rs,t) ↔
    ∃ r s' rs', step s a = some (r,s') ∧ run step s' as = some (rs',t) ∧ rs = r :: rs' := by
  rw [run_cons]
  simp only [Option.bind_eq_some_iff,Option.map_eq_some_iff,Prod.exists,Prod.mk.injEq]
  constructor
  · rintro ⟨r,s',hs,rs',_,ht,rfl,rfl⟩
    exact ⟨r,s',rs',hs,ht,rfl⟩
  · rintro ⟨r,s',rs',hs,ht,rfl⟩
    exact ⟨r,s',hs,rs',t,ht,rfl,rfl⟩

/-- Runs compose: the state after a prefix is where the rest starts. -/
theorem run_append_eq_some : run step s (as ++ bs) = some (rs,t) ↔
    ∃ u rs₁ rs₂, run step s as = some (rs₁,u) ∧ run step u bs = some (rs₂,t) ∧ rs = rs₁ ++ rs₂ := by
  induction as generalizing s rs with
  | nil => simp
  | cons a as ih =>
    simp only [List.cons_append,run_cons_eq_some,ih]
    constructor
    · rintro ⟨r,s',_,hs,⟨u,rs₁,rs₂,h₁,h₂,rfl⟩,rfl⟩
      exact ⟨u,r :: rs₁,rs₂,⟨r,s',rs₁,hs,h₁,rfl⟩,h₂,rfl⟩
    · rintro ⟨u,_,rs₂,⟨r,s',rs₁,hs,h₁,rfl⟩,h₂,rfl⟩
      exact ⟨r,s',rs₁ ++ rs₂,hs,⟨u,rs₁,rs₂,h₁,h₂,rfl⟩,rfl⟩

/-- The same as an equation. -/
theorem run_append (step : σ → α → Option (ρ × σ)) (s : σ) (as bs : List α) : run step s (as ++ bs) =
    (run step s as).bind fun p => (run step p.2 bs).map fun q => (p.1 ++ q.1,q.2) := by
  ext ⟨rs,t⟩
  rw [run_append_eq_some]
  simp only [Option.bind_eq_some_iff,Option.map_eq_some_iff,Prod.exists,Prod.mk.injEq]
  constructor
  · rintro ⟨u,rs₁,rs₂,h₁,h₂,rfl⟩
    exact ⟨rs₁,u,h₁,rs₂,t,h₂,rfl,rfl⟩
  · rintro ⟨rs₁,u,h₁,rs₂,t',h₂,rfl,rfl⟩
    exact ⟨u,rs₁,rs₂,h₁,h₂,rfl⟩

/-- A property kept by every returning step is kept by every run. -/
theorem run_invariant {I : σ → Prop} (hstep : ∀ s a r s', I s → step s a = some (r,s') → I s')
    (hs : I s) (h : run step s as = some (rs,t)) : I t := by
  induction as generalizing s rs with
  | nil =>
    obtain ⟨_,rfl⟩ := Prod.mk.inj (Option.some.inj h)
    exact hs
  | cons a as ih =>
    obtain ⟨r,s',rs',hs',ht,_⟩ := run_cons_eq_some.mp h
    exact ih (hstep _ _ _ _ hs hs') ht

/-- The same for a property of the state and of all answers given so far. -/
theorem run_history_invariant_from {I : List ρ → σ → Prop}
    (hstep : ∀ rs s a r s', I rs s → step s a = some (r,s') → I (rs ++ [r]) s')
    {before : List ρ} (hs : I before s) (h : run step s as = some (rs,t)) : I (before ++ rs) t := by
  induction as generalizing s before rs with
  | nil =>
    obtain ⟨rfl,rfl⟩ := Prod.mk.inj (Option.some.inj h)
    simpa using hs
  | cons a as ih =>
    obtain ⟨r,s',rs',hs',ht,rfl⟩ := run_cons_eq_some.mp h
    have hnext := ih (hstep before s a r s' hs hs') ht
    simpa using hnext

theorem run_history_invariant {I : List ρ → σ → Prop}
    (hstep : ∀ rs s a r s', I rs s → step s a = some (r,s') → I (rs ++ [r]) s')
    (hs : I [] s) (h : run step s as = some (rs,t)) : I rs t :=
  run_history_invariant_from hstep hs h

/-- Induction along a run, with all calls and answers so far: each step may use that the calls
before it have run. -/
theorem run_induction {I : List α → List ρ → σ → Prop} (hinit : I [] [] s)
    (hstep : ∀ pre a post rs u r u', as = pre ++ a :: post → run step s pre = some (rs,u) → I pre rs u →
      step u a = some (r,u') → I (pre ++ [a]) (rs ++ [r]) u')
    (h : run step s as = some (rs,t)) : I as rs t := by
  have hprefix : ∀ pre post, as = pre ++ post → ∀ rs u, run step s pre = some (rs,u) → I pre rs u := by
    intro pre
    induction pre using List.reverseRecOn with
    | nil =>
      intro post _ rs u hu
      obtain ⟨rfl,rfl⟩ := Prod.mk.inj (Option.some.inj hu)
      exact hinit
    | append_singleton pre a ih =>
      intro post hpre rs u hu
      obtain ⟨u₁,rs₁,rs₂,h₁,h₂,rfl⟩ := run_append_eq_some.mp hu
      obtain ⟨r,u₂,rs₃,hr,hnil,rfl⟩ := run_cons_eq_some.mp h₂
      obtain ⟨rfl,rfl⟩ := Prod.mk.inj (Option.some.inj hnil)
      have hsplit : as = pre ++ a :: post := by simpa using hpre
      exact hstep pre a post rs₁ u₁ r u₂ hsplit h₁ (ih (a :: post) hsplit rs₁ u₁ h₁) hr
  exact hprefix as [] (by simp) rs t h

/-- Calls that stand for calls of the machine may be translated one by one or beforehand. -/
theorem run_map {β : Type*} (step : σ → β → Option (ρ × σ)) (f : α → β) (s : σ) (as : List α) :
    run step s (as.map f) = run (fun s a => step s (f a)) s as := by
  induction as generalizing s with
  | nil => rfl
  | cons a as ih =>
    rw [List.map_cons,run,run]
    simp only [ih]

/-- Steps that are themselves runs of smaller steps: a run of the steps and a run of all their
smaller steps give the same answers, one after another, and end in the same state. -/
theorem run_flatMap {β : Type*} {large : σ → α → Option (List ρ × σ)} {small : σ → β → Option (List ρ × σ)}
    {f : α → List β} {I : σ → Prop}
    (hlarge : ∀ s a, I s → large s a = (run small s (f a)).map fun p => (p.1.flatten,p.2))
    (hI : ∀ s a r s', I s → large s a = some (r,s') → I s') {s : σ} (hs : I s) (as : List α) :
    (run large s as).map (fun p => (p.1.flatten,p.2)) =
      (run small s (as.flatMap f)).map fun p => (p.1.flatten,p.2) := by
  induction as generalizing s with
  | nil => rfl
  | cons a as ih =>
    have hfirst := hlarge s a hs
    rw [List.flatMap_cons,run_append,run_cons]
    cases hsmall : run small s (f a) with
    | none =>
      rw [hsmall] at hfirst
      rw [hfirst]
      rfl
    | some p =>
      rw [hsmall] at hfirst
      have hrest := congrArg (Option.map fun q => (p.1.flatten ++ q.1,q.2)) (ih (hI _ _ _ _ hs hfirst))
      rw [hfirst]
      simpa [Option.map_map,Function.comp_def] using hrest

lemma run_length (h : run step s as = some (rs,t)) : rs.length = as.length :=
  run_induction (I := fun pre before _ => before.length = pre.length) rfl
    (fun pre a post before u r u' _ _ hI _ => by simp [hI]) h

theorem run_concat {u : σ} (h : run step s as = some (rs,t)) (hr : step t a = some (r,u)) :
    run step s (as ++ [a]) = some (rs ++ [r],u) :=
  run_append_eq_some.mpr ⟨t,rs,[r],h,run_cons_eq_some.mpr ⟨r,u,[],hr,rfl,rfl⟩,rfl⟩

/-- All answers of a run satisfy `P` exactly when each call satisfies `C` in the state the calls
before it reach, if `C` is what makes the answer of one step satisfy `P`. -/
theorem run_forall_answers_iff {P : ρ → Prop} {C : σ → α → Prop}
    (hstep : ∀ s a r s', step s a = some (r,s') → (P r ↔ C s a)) (h : run step s as = some (rs,t)) :
    (∀ r ∈ rs, P r) ↔
      ∀ pre a post, as = pre ++ a :: post → ∀ rs₁ u, run step s pre = some (rs₁,u) → C u a := by
  induction as generalizing s rs with
  | nil =>
    obtain ⟨rfl,_⟩ := Prod.mk.inj (Option.some.inj h)
    simp
  | cons a as ih =>
    obtain ⟨r,s',rs',hs,ht,rfl⟩ := run_cons_eq_some.mp h
    rw [List.forall_mem_cons,hstep s a r s' hs,ih ht]
    constructor
    · rintro ⟨hfirst,hrest⟩ pre b post hpre rs₁ u hu
      cases pre with
      | nil =>
        obtain ⟨rfl,_⟩ := List.cons.inj hpre
        obtain ⟨_,rfl⟩ := Prod.mk.inj (Option.some.inj hu)
        exact hfirst
      | cons c pre =>
        obtain ⟨rfl,htail⟩ := List.cons.inj hpre
        obtain ⟨r₂,s₂,rs₂,hs₂,hu,_⟩ := run_cons_eq_some.mp hu
        obtain ⟨_,rfl⟩ := Prod.mk.inj (Option.some.inj (hs.symm.trans hs₂))
        exact hrest pre b post htail rs₂ u hu
    · intro hall
      refine ⟨hall [] a as rfl [] s rfl,?_⟩
      rintro pre b post rfl rs₁ u hu
      exact hall (a :: pre) b post rfl (r :: rs₁) u (run_cons_eq_some.mpr ⟨r,s',rs₁,hs,hu,rfl⟩)

/-- What holds of each call and of the calls before it may be checked position by position. -/
theorem forall_split_of_take {P : List α → α → Prop} (h : ∀ n (hn : n < as.length), P (as.take n) as[n]) :
    ∀ pre a post, as = pre ++ a :: post → P pre a := by
  rintro pre a post rfl
  have hat := h pre.length (by simp)
  simpa using hat

/-- A run reaches the goal if wherever it is not there yet some call lowers the rank. -/
theorem exists_run_of_rank {I : ℕ → σ → Prop} {P : σ → Prop}
    (hstep : ∀ n s, I n s → ¬ P s → ∃ a r s' m, step s a = some (r,s') ∧ m < n ∧ I m s') {n : ℕ} (hs : I n s) :
    ∃ as rs t, run step s as = some (rs,t) ∧ P t := by
  induction n using Nat.strongRecOn generalizing s with
  | ind n ih =>
    by_cases hgoal : P s
    · exact ⟨[],[],s,rfl,hgoal⟩
    · obtain ⟨a,r,s',m,ha,hm,hI⟩ := hstep n s hs hgoal
      obtain ⟨as,rs,t,hrun,ht⟩ := ih m hm hI
      exact ⟨a :: as,r :: rs,t,run_cons_eq_some.mpr ⟨r,s',rs,ha,hrun,rfl⟩,ht⟩

/-- A check of where a run ends, if it ends. -/
theorem of_run_all {P : σ → Prop} [DecidablePred P] (h : (run step s as).all fun p => decide (P p.2))
    (ht : run step s as = some (rs,t)) : P t := by
  rw [ht] at h
  simpa using h

/-- A run whose answers are known has a final state, about which its run decides. -/
theorem run_exists_of_answers {P : σ → Prop} (h : (run step s as).map Prod.fst = some rs)
    (hP : ∀ t, run step s as = some (rs,t) → P t) : ∃ t, run step s as = some (rs,t) ∧ P t := by
  obtain ⟨⟨rs',t⟩,ht,rfl⟩ := Option.map_eq_some_iff.mp h
  exact ⟨t,ht,hP t ht⟩

/-- Answers of a total machine over a list of calls, with its final state. -/
def runTotal (next : τ → α → ρ × τ) : τ → List α → List ρ × τ
  | t, [] => ([],t)
  | t, a :: as =>
    let (r,t') := next t a
    let (rs,u) := runTotal next t' as
    (r :: rs,u)

@[simp] theorem runTotal_nil (next : τ → α → ρ × τ) (t : τ) : runTotal next t [] = ([],t) := rfl

@[simp] theorem runTotal_cons (next : τ → α → ρ × τ) (t : τ) (a : α) (as : List α) :
    runTotal next t (a :: as) =
      ((next t a).1 :: (runTotal next (next t a).2 as).1,(runTotal next (next t a).2 as).2) := rfl

/-- A step-by-step simulation by a total machine carries over to whole runs: the answers agree
call by call and the final states are related. -/
theorem run_simulation {R : σ → τ → Prop} {next : τ → α → ρ × τ}
    (hstep : ∀ s t a r s', R s t → step s a = some (r,s') → (next t a).1 = r ∧ R s' (next t a).2)
    {s' : σ} {u : τ} (hR : R s u) (h : run step s as = some (rs,s')) :
    (runTotal next u as).1 = rs ∧ R s' (runTotal next u as).2 := by
  induction as generalizing s u rs with
  | nil =>
    obtain ⟨rfl,rfl⟩ := Prod.mk.inj (Option.some.inj h)
    exact ⟨rfl,hR⟩
  | cons a as ih =>
    obtain ⟨r,s₁,rs₁,hs,ht,rfl⟩ := run_cons_eq_some.mp h
    obtain ⟨hr,hR'⟩ := hstep _ _ _ _ _ hR hs
    obtain ⟨hrs,hR''⟩ := ih hR' ht
    rw [runTotal_cons]
    exact ⟨by rw [hr,hrs],hR''⟩

/-- A run returns exactly when each of its calls returns in the state the calls before it reach. -/
theorem run_isSome_iff : (run step s as).isSome ↔
    ∀ pre a post, as = pre ++ a :: post → ∀ rs u, run step s pre = some (rs,u) → (step u a).isSome := by
  induction as generalizing s with
  | nil => simp
  | cons a as ih =>
    constructor
    · intro h pre b post hpre rs u hu
      obtain ⟨⟨rs',t⟩,ht⟩ := Option.isSome_iff_exists.mp h
      rw [hpre,run_append_eq_some] at ht
      obtain ⟨u',rs₁,rs₂,h₁,h₂,_⟩ := ht
      obtain ⟨_,rfl⟩ := Prod.mk.inj (Option.some.inj (hu.symm.trans h₁))
      obtain ⟨r,s',_,hs,_⟩ := run_cons_eq_some.mp h₂
      simp [hs]
    · intro h
      obtain ⟨⟨r,s'⟩,hs⟩ := Option.isSome_iff_exists.mp (h [] a as rfl [] s rfl)
      have htail : (run step s' as).isSome := by
        rw [ih]
        rintro pre b post rfl rs u hu
        exact h (a :: pre) b post rfl (r :: rs) u (run_cons_eq_some.mpr ⟨r,s',rs,hs,hu,rfl⟩)
      obtain ⟨⟨rs,t⟩,ht⟩ := Option.isSome_iff_exists.mp htail
      simp [run,hs,ht]

/-- A result that is there satisfies what every such result satisfies. -/
theorem exists_of_isSome {o : Option σ} {P : σ → Prop} (h : o.isSome) (hP : ∀ t, o = some t → P t) :
    ∃ t, o = some t ∧ P t := by
  obtain ⟨t,ht⟩ := Option.isSome_iff_exists.mp h
  exact ⟨t,ht,hP t ht⟩

/-- An entry of a history stays where it is while the history grows. -/
lemma getElem?_of_isPrefix {xs ys : List α} (h : xs <+: ys) {i : ℕ} {x : α} (hx : xs[i]? = some x) :
    ys[i]? = some x := by
  obtain ⟨rest,rfl⟩ := h
  exact (List.getElem?_append_left (List.getElem?_eq_some_iff.mp hx).1).trans hx

section Folds
variable {f g : σ → α → Option σ}

theorem foldlM_invariant {I : σ → Prop} (hstep : ∀ s a s', I s → f s a = some s' → I s') (hs : I s)
    (h : as.foldlM f s = some t) : I t := by
  induction as generalizing s with
  | nil =>
    obtain rfl := Option.some.inj h
    exact hs
  | cons a as ih =>
    rw [List.foldlM_cons] at h
    obtain ⟨s',hs',ht⟩ := Option.bind_eq_some_iff.mp h
    exact ih (hstep s a s' hs hs') ht

lemma foldlM_eq_of_forall (h : ∀ pre a post, as = pre ++ a :: post → ∀ t, pre.foldlM f s = some t →
    f t a = g t a) : as.foldlM f s = as.foldlM g s := by
  induction as generalizing s with
  | nil => rfl
  | cons a as ih =>
    have hfirst := h [] a as rfl s rfl
    rw [List.foldlM_cons,List.foldlM_cons,← hfirst]
    cases hs : f s a with
    | none => rfl
    | some s' =>
      apply ih
      rintro pre b post rfl t ht
      apply h (a :: pre) b post rfl t
      rwa [List.foldlM_cons,hs]

/-- Two folds have related outcomes after every prefix exactly when each step satisfies `C` in
the state before it, if `C` is what relates the outcomes of one step and makes them equal. -/
theorem foldlM_related_iff {S : Option σ → Option σ → Prop} {C : σ → α → Prop} {I : σ → Prop}
    (hrefl : ∀ s, I s → S (some s) (some s)) (hnone : S none none)
    (hstep : ∀ s a, I s → (S (f s a) (g s a) ↔ C s a)) (heq : ∀ s a, C s a → f s a = g s a)
    (hI : ∀ s a s', I s → g s a = some s' → I s') (hs : I s) (as : List α) :
    (∀ pre post, as = pre ++ post → S (pre.foldlM f s) (pre.foldlM g s)) ↔
      ∀ pre a post, as = pre ++ a :: post → ∀ t, pre.foldlM f s = some t → C t a := by
  constructor
  · intro hall pre
    induction pre generalizing s as with
    | nil =>
      rintro a post rfl t ht
      obtain rfl := Option.some.inj ht
      rw [← hstep s a hs]
      simpa using hall [a] post rfl
    | cons b pre ih =>
      rintro a post rfl t ht
      have hb : C s b := by
        rw [← hstep s b hs]
        simpa using hall [b] (pre ++ a :: post) rfl
      rw [List.foldlM_cons] at ht
      obtain ⟨s',hs',ht⟩ := Option.bind_eq_some_iff.mp ht
      have hg : g s b = some s' := (heq s b hb).symm.trans hs'
      refine ih (hI s b s' hs hg) _ (fun pre' post' hpre => ?_) a post rfl t ht
      have := hall (b :: pre') post' (by rw [List.cons_append,hpre,List.cons_append])
      rwa [List.foldlM_cons,List.foldlM_cons,hs',hg] at this
  · rintro hall pre post rfl
    have hsame : pre.foldlM f s = pre.foldlM g s := by
      apply foldlM_eq_of_forall
      rintro pre' a post' rfl t ht
      exact heq t a (hall pre' a (post' ++ post) (by simp) t ht)
    rw [hsame]
    cases ht : pre.foldlM g s with
    | none => exact hnone
    | some t => exact hrefl t (foldlM_invariant hI hs ht)

end Folds

end TickToTrade
