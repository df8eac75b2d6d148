import Mathlib.Logic.Relation
import TickToTrade.Logger.Process

/-! What the background thread does if it alone takes steps: while the logger runs it empties all
queues, and after the request to stop it exits, so that `shutdown` returns. Without it a queue takes no
more messages than its ring has room for. -/
namespace TickToTrade.AsyncLogger

/-- Steps of the background thread alone. -/
def Works : State → State → Prop := Relation.ReflTransGen fun s s' => ∃ e, backgroundStep s = some (e,s')

variable {s s' s'' : State}

namespace Works

lemma refl (s : State) : Works s s := Relation.ReflTransGen.refl

lemma trans (h : Works s s') (h' : Works s' s'') : Works s s'' := Relation.ReflTransGen.trans h h'

lemma moves {pc pc' : BackgroundPc} (hpc : s.background = pc) (h : Moves s pc pc') :
    Works s { s with background := pc' } :=
  .single ⟨_,backgroundStep_of_moves (hpc ▸ h)⟩

end Works

/-- What stays as it is while only the background thread takes steps. -/
structure Keeps (s s' : State) : Prop where
  running : s'.running = s.running
  length : s'.threadQueues.length = s.threadQueues.length
  empty : ∀ i, s.content i = [] → s'.content i = []
  consistent : Consistent s → Consistent s'

lemma keeps_of_step {e : Event} (h : backgroundStep s = some (e,s')) : Keeps s s' := by
  rcases backgroundStep_eq_some h with ⟨active,i,rest,idle,msg,queue,hpc,hwaiting,rfl,rfl⟩ | ⟨pc,hmoves,rfl,rfl⟩
  · refine ⟨rfl,length_modifyQueue s i _,fun j hj => ?_,fun hs => hs.step (.popped _ _ _ _ _ _ hpc hwaiting)⟩
    have hi := lt_of_content s (i := i) (by simp [hwaiting])
    have hcontent := content_modifyQueue s i j List.tail hi
    refine hcontent.trans ?_
    split
    · rename_i hji
      rw [← hji,hj]
      rfl
    · exact hj
  · exact ⟨rfl,rfl,fun _ hj => hj,fun hs => hs.step (.moved pc hmoves)⟩

theorem Works.keeps (h : Works s s') : Keeps s s' := by
  induction h with
  | refl => exact ⟨rfl,rfl,fun _ h => h,fun h => h⟩
  | tail _ hstep ih =>
    obtain ⟨e,hstep⟩ := hstep
    have hlast := keeps_of_step hstep
    exact ⟨hlast.running.trans ih.running,hlast.length.trans ih.length,fun i hi => hlast.empty i (ih.empty i hi),
      fun hs => hlast.consistent (ih.consistent hs)⟩

/-- One queue is popped until it is empty. -/
lemma works_queue {activeQueues rest : List ℕ} {i : ℕ} {idle : Bool} (hpc : s.background = .polling activeQueues (i :: rest) idle) :
    ∃ s' idle', Works s s' ∧ s'.background = .polling activeQueues rest idle' ∧ s'.content i = [] ∧
      (s.content i = [] → idle' = idle) := by
  generalize hqueue : s.content i = queue
  induction queue generalizing s idle with
  | nil => exact ⟨_,idle,Works.moves hpc (.next hqueue),rfl,hqueue,fun _ => rfl⟩
  | cons msg queue ih =>
    have hpop := backgroundStep_eq_pop hpc hqueue
    have hi := lt_of_content s (i := i) (by simp [hqueue])
    have hcontent : (s.modifyQueue i List.tail).content i = queue := by
      rw [content_modifyQueue s i i List.tail hi,if_pos rfl,hqueue]
      rfl
    obtain ⟨s',idle',hworks,hpc',hempty,_⟩ := ih
      (s := { s.modifyQueue i List.tail with background := .polling activeQueues (i :: rest) false }) rfl hcontent
    exact ⟨s',idle',(Works.refl s).tail ⟨_,hpop⟩ |>.trans hworks,hpc',hempty,by simp⟩

/-- The queues of a pass are emptied one after another. -/
lemma works_pass {activeQueues : List ℕ} (rest : List ℕ) {idle : Bool}
    (hpc : s.background = .polling activeQueues rest idle) :
    ∃ s' idle', Works s s' ∧ s'.background = .yieldTest activeQueues idle' ∧ (∀ i ∈ rest, s'.content i = []) ∧
      ((∀ i ∈ rest, s.content i = []) → idle' = idle) := by
  induction rest generalizing s idle with
  | nil => exact ⟨_,idle,Works.moves hpc (.polled _ _),rfl,by simp,fun _ => rfl⟩
  | cons i rest ih =>
    obtain ⟨s₁,idle₁,hworks₁,hpc₁,hempty₁,hidle₁⟩ := works_queue hpc
    obtain ⟨s',idle',hworks',hpc',hempty',hidle'⟩ := ih hpc₁
    refine ⟨s',idle',hworks₁.trans hworks',hpc',?_,fun hall => ?_⟩
    · rw [List.forall_mem_cons]
      exact ⟨hworks'.keeps.empty i hempty₁,hempty'⟩
    · rw [List.forall_mem_cons] at hall
      rw [hidle' fun j hj => hworks₁.keeps.empty j (hall.2 j hj),hidle₁ hall.1]

lemma works_all {activeQueues : List ℕ} (hs : Consistent s) (hpc : s.background = .refresh activeQueues) :
    ∃ s' activeQueues' idle', Works s s' ∧ s'.background = .breakTest activeQueues' idle' ∧ (∀ i, s'.content i = []) ∧
      ((∀ i, s.content i = []) → idle' = true) := by
  obtain ⟨n,_,hactive⟩ := hs.active
  rw [hpc] at hactive
  have hrefreshed : s.refreshed activeQueues = List.range s.threadQueues.length := refreshed_eq hactive
  have hrefresh := Works.moves hpc (.refresh activeQueues)
  obtain ⟨s₁,idle',hworks,hpc₁,hempty,hidle⟩ := works_pass
    (s := { s with background := .polling (s.refreshed activeQueues) (s.refreshed activeQueues) true }) _ rfl
  refine ⟨_,_,idle',hrefresh.trans (hworks.trans (Works.moves hpc₁ (.yielded _ _))),rfl,fun i => ?_,fun hall => ?_⟩
  · by_cases hi : i < s.threadQueues.length
    · exact hempty i (by rw [hrefreshed]; exact List.mem_range.mpr hi)
    · apply content_eq_nil s₁
      rw [hworks.keeps.length]
      exact Nat.le_of_not_lt hi
  · exact hidle fun i _ => hall i

/-- From wherever it is, the thread comes to the end of a pass. -/
lemma works_breakTest (hpc : s.background ≠ .exited) (hs : Consistent s) :
    (∃ s' activeQueues idle, Works s s' ∧ s'.background = .breakTest activeQueues idle) ∨
      s.running = false ∧ s.background = .loopCondition [] := by
  cases hat : s.background with
  | loopCondition activeQueues =>
    by_cases hgoes : s.running = true ∨ activeQueues ≠ []
    · have henter := Works.moves hat (.enter hgoes)
      obtain ⟨s',active,idle,hworks,hpc',_⟩ := works_all (henter.keeps.consistent hs) rfl
      exact .inl ⟨s',active,idle,henter.trans hworks,hpc'⟩
    · simp only [not_or,Bool.not_eq_true,not_not] at hgoes
      obtain ⟨hstopped,rfl⟩ := hgoes
      exact .inr ⟨hstopped,rfl⟩
  | refresh activeQueues =>
    obtain ⟨s',active,idle,hworks,hpc',_⟩ := works_all hs hat
    exact .inl ⟨s',active,idle,hworks,hpc'⟩
  | polling activeQueues rest idle =>
    obtain ⟨s₁,idle₁,hworks,hpc₁,_⟩ := works_pass rest hat
    exact .inl ⟨_,activeQueues,idle₁,hworks.trans (Works.moves hpc₁ (.yielded _ _)),rfl⟩
  | yieldTest activeQueues idle => exact .inl ⟨_,activeQueues,idle,Works.moves hat (.yielded _ _),rfl⟩
  | breakTest activeQueues idle => exact .inl ⟨s,activeQueues,idle,Works.refl s,hat⟩
  | exited => contradiction

/-- While the logger runs the thread empties all queues. -/
theorem works_drained (hs : Consistent s) (hrunning : s.running = true) :
    ∃ s', Works s s' ∧ ∀ i, s'.content i = [] := by
  have hpc : s.background ≠ .exited := by
    intro hexited
    rw [hs.exited hexited] at hrunning
    contradiction
  rcases works_breakTest hpc hs with ⟨s₁,active,idle,hworks₁,hpc₁⟩ | ⟨hstopped,_⟩
  · have hagain := Works.moves hpc₁ (.again (.inl (hworks₁.keeps.running.trans hrunning)))
    have henter := Works.moves (s := { s₁ with background := .loopCondition active }) rfl
      (.enter (.inl (hworks₁.keeps.running.trans hrunning)))
    have hthere := hworks₁.trans (hagain.trans henter)
    obtain ⟨s',_,_,hworks,_,hempty,_⟩ := works_all (hthere.keeps.consistent hs) rfl
    exact ⟨s',hthere.trans hworks,hempty⟩
  · rw [hstopped] at hrunning
    contradiction

lemma works_again {activeQueues : List ℕ} (hs : Consistent s) (hpc : s.background = .breakTest activeQueues false) :
    ∃ s' active idle, Works s s' ∧ s'.background = .breakTest active idle ∧ (∀ i, s'.content i = []) ∧
      ((∀ i, s.content i = []) → idle = true) := by
  have hbusy : activeQueues ≠ [] := by simpa [hpc,BackgroundPc.idle,BackgroundPc.activeQueues] using hs.busy
  have hagain := Works.moves hpc (.again (.inr rfl))
  have henter := Works.moves (s := { s with background := .loopCondition activeQueues }) rfl (.enter (.inr hbusy))
  have hthere := hagain.trans henter
  obtain ⟨s',active,idle,hworks,hpc',hempty,hidle⟩ := works_all (hthere.keeps.consistent hs) rfl
  exact ⟨s',active,idle,hthere.trans hworks,hpc',hempty,fun hall => hidle hall⟩

/-- The thread exits if nothing else takes steps. -/
def Exits (s : State) : Prop := ∃ s', Works s s' ∧ s'.background = .exited

section Stopped
variable {activeQueues : List ℕ} {idle : Bool} (hstopped : s.running = false)

lemma Exits.behind (hworks : Works s s') (h : Exits s') : Exits s := by
  obtain ⟨s'',hworks',hexited⟩ := h
  exact ⟨s'',hworks.trans hworks',hexited⟩

include hstopped

lemma exits_of_idle (hpc : s.background = .breakTest activeQueues true) : Exits s :=
  ⟨_,Works.moves hpc (.breaks activeQueues hstopped),rfl⟩

lemma exits_of_empty (hs : Consistent s) (hempty : ∀ i, s.content i = [])
    (hpc : s.background = .breakTest activeQueues idle) : Exits s := by
  cases idle with
  | true => exact exits_of_idle hstopped hpc
  | false =>
    obtain ⟨s',active,idle,hworks,hpc',_,hidle⟩ := works_again hs hpc
    rw [hidle hempty] at hpc'
    exact (exits_of_idle (hworks.keeps.running.trans hstopped) hpc').behind hworks

/-- After the request to stop the thread exits: a pass that has found messages is followed by at most
two more. -/
theorem exits_of_stopped (hs : Consistent s) : Exits s := by
  by_cases hpc : s.background = .exited
  · exact ⟨s,Works.refl s,hpc⟩
  rcases works_breakTest hpc hs with ⟨s₁,active₁,idle₁,hworks₁,hpc₁⟩ | ⟨_,hleave⟩
  · have hstopped₁ := hworks₁.keeps.running.trans hstopped
    have hs₁ := hworks₁.keeps.consistent hs
    cases idle₁ with
    | true => exact (exits_of_idle hstopped₁ hpc₁).behind hworks₁
    | false =>
      obtain ⟨s₂,active₂,idle₂,hworks₂,hpc₂,hempty₂,_⟩ := works_again hs₁ hpc₁
      have hexits := exits_of_empty (hworks₂.keeps.running.trans hstopped₁) (hworks₂.keeps.consistent hs₁) hempty₂ hpc₂
      exact hexits.behind (hworks₁.trans hworks₂)
  · exact ⟨_,Works.moves hleave (.leave hstopped),rfl⟩

end Stopped

namespace Logger
variable {s s' : Logger} {threads : State} {entries entries' : List Entry} {calls : List Call}

/-- Every line can be written, so the background thread is never held up by the file. -/
lemma step_background {e : Event} (h : backgroundStep s.threads = some (e,threads)) :
    ∃ out, step s .background = some (.thread e,{ s with threads := threads, out := out }) := by
  have hafter : ∃ out, s.out.afterPop e = some out := by
    cases e with
    | written i msg => exact ⟨_,writeToFile_eq s.out msg⟩
    | _ => exact ⟨s.out,rfl⟩
  obtain ⟨out,hout⟩ := hafter
  exact ⟨out,by simp [step,h,hout]⟩

lemma run_of_works (h : Works s.threads threads) : ∃ n entries out,
    run step s (List.replicate n .background) = some (entries,{ s with threads := threads, out := out }) := by
  induction h with
  | refl => exact ⟨0,[],s.out,rfl⟩
  | tail _ hstep ih =>
    obtain ⟨n,entries,out,hrun⟩ := ih
    obtain ⟨e,hstep⟩ := hstep
    obtain ⟨out',hlast⟩ := step_background (s := { s with threads := _, out := out }) hstep
    refine ⟨n + 1,entries ++ [.thread e],out',?_⟩
    rw [List.replicate_succ']
    exact run_concat hrun hlast

/-- A push leaves one slot of the ring free. -/
lemma Effect.room {a : Call} {e : Entry} (h : Effect s a e s') (hroom : ∀ i, (s.threads.content i).length < queueCapacity) :
    ∀ i, (s'.threads.content i).length < queueCapacity := by
  intro i
  have hsmaller : logged i (events [e]) = [] → (s'.threads.content i).length ≤ (s.threads.content i).length := by
    intro hnone
    have hconserves := congrArg List.length (h.conserves i)
    rw [hnone,List.append_nil,List.length_append] at hconserves
    omega
  cases h with
  | pushed j level timestamp formatted tq at_index room =>
    have hj := (List.getElem?_eq_some_iff.mp at_index).1
    have hcontent := content_modifyQueue s.threads j i (· ++ [.log level timestamp tq.threadId formatted]) hj
    rw [hcontent]
    split
    · simpa using room
    · exact hroom i
  | _ => exact (hsmaller rfl).trans_lt (hroom i)

/-- A stopped logger, until the next `init`: what is logged stays in the queues. -/
lemma Effect.waits {a : Call} {e : Entry} (h : Effect s a e s') (hsync : Sync s) (hmapped : s.out.mapped = false)
    (ha : ∀ filepath mmapSize, a ≠ .init filepath mmapSize) : s'.out.mapped = false ∧ ∀ i, written i (events [e]) = [] := by
  have hexited := hsync.exited hmapped
  cases h with
  | emptied filepath => exact absurd rfl (ha filepath 0)
  | opened filepath mmapSize free stopped => exact absurd rfl (ha filepath mmapSize)
  | asked running =>
    rw [hsync.mapped,running] at hmapped
    contradiction
  | closed joining exited => exact ⟨by simp [FileState.close,hmapped],fun _ => rfl⟩
  | popped active j rest idle msg queue out at_pc waiting writes =>
    rw [at_pc] at hexited
    contradiction
  | _ => exact ⟨hmapped,fun _ => rfl⟩

/-- What holds in every state that is reached. -/
structure Reached (s : Logger) : Prop where
  sync : Sync s
  room : ∀ i, (s.threads.content i).length < queueCapacity

theorem reached_of_run {files : List UInt8 → List UInt8} (hrun : run step (fresh files) calls = some (entries,s)) :
    Reached s :=
  run_invariant (I := Reached) (fun _ _ _ _ h hstep => ⟨h.sync.step (step_cases hstep),(step_cases hstep).room h.room⟩)
    ⟨sync_fresh files,fun _ => Nat.zero_lt_succ _⟩ hrun

lemma Reached.waits (h : Reached s) (hmapped : s.out.mapped = false)
    (hcalls : ∀ filepath mmapSize, .init filepath mmapSize ∉ calls) (hrun : run step s calls = some (entries,s')) :
    ∀ i, (s.threads.content i).length + (logged i (events entries)).length < queueCapacity := by
  suffices hend : s'.out.mapped = false ∧ Reached s' ∧
      ∀ i, s'.threads.content i = s.threads.content i ++ logged i (events entries) by
    intro i
    rw [← List.length_append,← hend.2.2]
    exact hend.2.1.room i
  refine run_induction (I := fun _ entries s' => s'.out.mapped = false ∧ Reached s' ∧
    ∀ i, s'.threads.content i = s.threads.content i ++ logged i (events entries))
    ⟨hmapped,h,fun i => by simp [events,logged]⟩ ?_ hrun
  rintro pre a post entries u e u' rfl _ ⟨hmapped,hreached,hcontent⟩ hstep
  have heffect := step_cases hstep
  obtain ⟨hmapped',hquiet⟩ := heffect.waits hreached.sync hmapped fun filepath mmapSize ha => hcalls filepath mmapSize (by simp [ha])
  refine ⟨hmapped',⟨hreached.sync.step heffect,heffect.room hreached.room⟩,fun i => ?_⟩
  have hconserves := heffect.conserves i
  rw [hquiet,List.nil_append] at hconserves
  rw [hconserves,hcontent,logged_events_append,List.append_assoc]

/-- From every state that is reached, whatever the threads have done: while the logger runs, its
background thread alone empties all queues; once a stop is asked for, it alone exits, and `shutdown`
returns; and while the logger is stopped, no queue takes more than its ring has room for, so that a
further call of `log` waits for the next `init`. -/
theorem background_of_run (files : List UInt8 → List UInt8) (calls : List Call) (entries : List Entry) (s : Logger)
    (hrun : run step (fresh files) calls = some (entries,s)) :
    (s.threads.running = true → ∃ n entries' s', run step s (List.replicate n .background) = some (entries',s') ∧
      ∀ i, s'.threads.content i = []) ∧
    (s.joining = true → ∃ n entries' s', run step s (List.replicate n .background ++ [.join]) = some (entries',s')) ∧
    (s.out.mapped = false → ∀ calls' entries' s', (∀ filepath mmapSize, .init filepath mmapSize ∉ calls') →
      run step s calls' = some (entries',s') →
      ∀ i, (s.threads.content i).length + (logged i (events entries')).length < queueCapacity) := by
  have h := reached_of_run hrun
  refine ⟨fun hrunning => ?_,fun hjoining => ?_,fun hmapped calls' entries' s' hcalls hrun' => h.waits hmapped hcalls hrun'⟩
  · obtain ⟨threads,hworks,hempty⟩ := works_drained h.sync.consistent hrunning
    obtain ⟨n,entries',out,hrun'⟩ := run_of_works hworks
    exact ⟨n,entries',_,hrun',hempty⟩
  · obtain ⟨threads,hworks,hexited⟩ := exits_of_stopped (h.sync.stopped hjoining) h.sync.consistent
    obtain ⟨n,entries',out,hrun'⟩ := run_of_works hworks
    have hjoin : step { s with threads := threads, out := out } .join = some (.closed,⟨threads,out.close,false⟩) := by
      simp [step,hjoining,hexited]
    exact ⟨n,_,_,run_concat hrun' hjoin⟩

/-- A message waits when the stop is asked for. -/
theorem background_of_run_stop_asked : ∃ s,
    run step (fresh fun _ => []) [.registerThread 7,.log 0 .info 1 (.ok [104]),.init [97] 288,.background,.shutdown] =
      some ([.thread .silent,.thread (.logged 0 (.log .info 1 7 (.ok [104]))),.opened [97] 288,.thread .silent,
        .thread .silent],s) ∧
    ∃ n entries' s', run step s (List.replicate n .background ++ [.join]) = some (entries',s') := by
  refine run_exists_of_answers rfl fun s hs => ?_
  have hjoining : s.joining = true := of_run_all (P := fun s => s.joining = true) rfl hs
  exact (background_of_run _ _ _ s hs).2.1 hjoining

end Logger
end TickToTrade.AsyncLogger
