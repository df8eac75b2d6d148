import TickToTrade.Logger.Background

/-! What a shutdown flushes. The background thread decides to stop from an `idle` flag that it
computed before it sees the shutdown; whether all messages are written depends on where the thread
stands, and with what flag, when `running_` becomes false. -/
namespace TickToTrade.AsyncLogger

variable {s s' : State} {a : Action} {e : Event} {events events' : List Event} {queues : List ThreadQueue}

/-- The cached queues are the first of the registered ones, and a pass that has found a message
has a queue to find it in. -/
structure Consistent (s : State) : Prop where
  active : ∃ n ≤ s.threadQueues.length, s.background.activeQueues = List.range n
  rest : ∀ i ∈ s.background.rest, i ∈ s.background.activeQueues
  busy : s.background.idle = false → s.background.activeQueues ≠ []
  exited : s.background = .exited → s.running = false

lemma consistent_init (queues : List ThreadQueue) : Consistent (init queues) :=
  ⟨⟨0,Nat.zero_le _,rfl⟩,by simp [init,BackgroundPc.rest],by simp [init,BackgroundPc.idle],by simp [init]⟩

lemma refreshed_eq {activeQueues : List ℕ} {n : ℕ} (h : activeQueues = List.range n) :
    s.refreshed activeQueues = List.range s.threadQueues.length := by
  unfold State.refreshed
  split
  · rfl
  · rename_i hsize
    rw [h,List.length_range,not_not] at hsize
    rw [h,hsize]

lemma Consistent.moved (h : Consistent s) {pc : BackgroundPc} (hmoves : Moves s s.background pc) :
    Consistent { s with background := pc } := by
  obtain ⟨⟨n,hn,hactive⟩,hrest,hbusy,_⟩ := h
  generalize s.background = at_pc at hmoves hactive hrest hbusy
  cases hmoves with
  | enter goes => exact ⟨⟨n,hn,hactive⟩,by simp [BackgroundPc.rest],by simp [BackgroundPc.idle],by simp⟩
  | leave stopped => exact ⟨⟨0,Nat.zero_le _,rfl⟩,by simp [BackgroundPc.rest],by simp [BackgroundPc.idle],fun _ => stopped⟩
  | refresh active =>
    exact ⟨⟨_,Nat.le_refl _,refreshed_eq hactive⟩,fun i hi => hi,by simp [BackgroundPc.idle],by simp⟩
  | next empty => exact ⟨⟨n,hn,hactive⟩,fun i hi => hrest i (List.mem_cons_of_mem _ hi),hbusy,by simp⟩
  | polled active idle => exact ⟨⟨n,hn,hactive⟩,by simp [BackgroundPc.rest],hbusy,by simp⟩
  | yielded active idle => exact ⟨⟨n,hn,hactive⟩,by simp [BackgroundPc.rest],hbusy,by simp⟩
  | breaks active stopped =>
    exact ⟨⟨0,Nat.zero_le _,rfl⟩,by simp [BackgroundPc.rest],by simp [BackgroundPc.idle],fun _ => stopped⟩
  | again goes => exact ⟨⟨n,hn,hactive⟩,by simp [BackgroundPc.rest],by simp [BackgroundPc.idle],by simp⟩

theorem Consistent.step (h : Consistent s) (heffect : Effect s e s') : Consistent s' := by
  cases heffect with
  | same => exact h
  | registered threadId =>
    obtain ⟨⟨n,hn,hactive⟩,hrest,hbusy,hexited⟩ := h
    exact ⟨⟨n,by simp; omega,hactive⟩,hrest,hbusy,hexited⟩
  | pushed i msg hi =>
    obtain ⟨⟨n,hn,hactive⟩,hrest,hbusy,hexited⟩ := h
    exact ⟨⟨n,by simpa using hn,hactive⟩,hrest,hbusy,hexited⟩
  | stopped =>
    obtain ⟨hactive,hrest,hbusy,hexited⟩ := h
    exact ⟨hactive,hrest,hbusy,fun _ => rfl⟩
  | popped active i rest idle msg queue hpc hwaiting =>
    obtain ⟨⟨n,hn,hactive⟩,hrest,_,_⟩ := h
    rw [hpc] at hactive hrest
    refine ⟨⟨n,by simpa using hn,hactive⟩,hrest,fun _ => ?_,by simp⟩
    exact List.ne_nil_of_mem (hrest i List.mem_cons_self)
  | moved pc hmoves => exact h.moved hmoves

/-- The history of a run against its state: queues are first in, first out, and only registered
queues have taken messages. -/
structure History (queues : List ThreadQueue) (events : List Event) (s : State) : Prop where
  consistent : Consistent s
  fifo : ∀ i, (init queues).content i ++ logged i events = written i events ++ s.content i
  registered : ∀ i, s.threadQueues.length ≤ i → (init queues).content i ++ logged i events = []

lemma history_init (queues : List ThreadQueue) : History queues [] (init queues) where
  consistent := consistent_init queues
  fifo i := by simp [logged,written]
  registered i hi := by simpa [logged] using content_eq_nil (init queues) hi

theorem History.step (h : History queues events s) (hstep : AsyncLogger.step s a = some (e,s')) :
    History queues (events ++ [e]) s' := by
  have heffect := step_cases hstep
  refine ⟨h.consistent.step heffect,fun i => ?_,fun i hi => ?_⟩
  · rw [logged_append,written_append,← List.append_assoc,h.fifo,List.append_assoc,List.append_assoc,
      heffect.conserves]
  · rw [logged_append,← List.append_assoc,h.registered i (Nat.le_trans heffect.length_le hi),
      heffect.logged_eq_nil hi]
    rfl

theorem history_of_run {actions : List Action}
    (hrun : run AsyncLogger.step (init queues) actions = some (events,s)) : History queues events s :=
  run_history_invariant (fun _ _ _ _ _ h hstep => h.step hstep) (history_init queues) hrun

/-- What is due at the shutdown has been written, queue by queue. -/
def Flushed (due : ℕ → List LogMessage) (events : List Event) : Prop := ∀ i, due i <+: written i events

lemma Flushed.append {due : ℕ → List LogMessage} (h : Flushed due events) (e : Event) : Flushed due (events ++ [e]) := by
  intro i
  rw [written_append]
  exact (h i).trans (List.prefix_append _ _)

/-- After the shutdown: the thread stops only when all that was due is written. -/
def Owes (due : ℕ → List LogMessage) (events : List Event) (s : State) : Prop :=
  match s.background with
  | .loopCondition activeQueues => activeQueues ≠ [] ∨ Flushed due events
  | .refresh _ => True
  | .polling _ rest idle => idle = false ∨ (∀ i, i ∉ rest → due i <+: written i events) ∨
      ∃ i ∈ rest, s.content i ≠ []
  | .yieldTest _ idle => idle = false ∨ Flushed due events
  | .breakTest _ idle => idle = false ∨ Flushed due events
  | .exited => Flushed due events

section Owes
variable {due : ℕ → List LogMessage}

lemma Owes.mono (howes : Owes due events s) (hpc : s'.background = s.background)
    (hcontent : ∀ i, s.content i ≠ [] → s'.content i ≠ []) (e : Event) : Owes due (events ++ [e]) s' := by
  unfold Owes at howes ⊢
  rw [hpc]
  split at howes
  · exact howes.imp_right (Flushed.append · e)
  · trivial
  · refine howes.imp_right (Or.imp (fun hflushed i hi => ?_) fun ⟨i,hi,hwaiting⟩ => ⟨i,hi,hcontent i hwaiting⟩)
    rw [written_append]
    exact (hflushed i hi).trans (List.prefix_append _ _)
  · exact howes.imp_right (Flushed.append · e)
  · exact howes.imp_right (Flushed.append · e)
  · exact howes.append e

lemma History.due_written (h : History queues events s)
    (hdue : ∀ i, due i <+: (init queues).content i ++ logged i events) {i : ℕ} (hempty : s.content i = []) :
    due i <+: written i events := by
  have hfifo := h.fifo i
  rw [hempty,List.append_nil] at hfifo
  exact hfifo ▸ hdue i

lemma Owes.moved (howes : Owes due events s) (h : History queues events s) (hstopped : s.running = false)
    (hdue : ∀ i, due i <+: (init queues).content i ++ logged i events) {pc : BackgroundPc}
    (hmoves : Moves s s.background pc) : Owes due events { s with background := pc } := by
  have hconsistent := h.consistent
  unfold Owes at howes ⊢
  obtain ⟨⟨n,hn,hactive⟩,_,hbusy,_⟩ := hconsistent
  generalize s.background = at_pc at hmoves hactive hbusy howes
  cases hmoves with
  | enter goes => trivial
  | leave stopped => exact howes.resolve_left (not_not.mpr rfl)
  | refresh active =>
    change active = List.range n at hactive
    refine .inr (.inl fun i hi => ?_)
    rw [refreshed_eq hactive,List.mem_range,Nat.not_lt] at hi
    have hnil := hdue i
    rw [h.registered i hi,List.prefix_nil] at hnil
    rw [hnil]
    exact List.nil_prefix
  | @next active i₀ rest idle hempty =>
    refine howes.imp_right (Or.imp (fun hflushed i hi => ?_) fun ⟨i,hi,hwaiting⟩ => ⟨i,?_,hwaiting⟩)
    · by_cases hi₀ : i = i₀
      · subst hi₀
        exact h.due_written hdue hempty
      · exact hflushed i fun hmem => hi ((List.mem_cons.mp hmem).resolve_left hi₀)
    · refine (List.mem_cons.mp hi).resolve_left fun hi₀ => ?_
      rw [hi₀] at hwaiting
      exact hwaiting hempty
  | polled active idle =>
    refine howes.imp_right fun hrest => ?_
    rcases hrest with hflushed | ⟨i,hi,_⟩
    · exact fun i => hflushed i List.not_mem_nil
    · contradiction
  | yielded active idle => exact howes
  | breaks active stopped => exact howes.resolve_left (by simp)
  | again goes =>
    rw [hstopped] at goes
    exact .inl (hbusy (goes.resolve_left (by simp)))

theorem Owes.step (howes : Owes due events s) (h : History queues events s) (hstopped : s.running = false)
    (hdue : ∀ i, due i <+: (init queues).content i ++ logged i events) (heffect : Effect s e s') :
    Owes due (events ++ [e]) s' := by
  cases heffect with
  | same => exact howes.mono rfl (fun _ hwaiting => hwaiting) _
  | registered threadId =>
    apply howes.mono
    · rfl
    · intro i hwaiting
      rwa [content_register]
  | pushed j msg hj =>
    apply howes.mono
    · rfl
    · intro i hwaiting
      rw [content_modifyQueue s j i _ hj]
      split <;> simp [hwaiting]
  | stopped =>
    apply howes.mono
    · rfl
    · exact fun _ hwaiting => hwaiting
  | popped active j rest idle msg queue hpc hwaiting => exact .inl rfl
  | moved pc hmoves => exact (howes.moved h hstopped hdue hmoves).mono rfl (fun _ hwaiting => hwaiting) _

end Owes

lemma Effect.running_eq (heffect : Effect s e s') (hstopped : s.running = false) : s'.running = false := by
  cases heffect <;> first | exact hstopped | rfl

/-- What a covered state owes when the shutdown comes. -/
lemma Covered.owes (h : History queues events s) (hcovered : s.Covered) :
    Owes (fun i => (init queues).content i ++ logged i events) events s := by
  have hempty : (∀ i, s.content i = []) → Flushed (fun i => (init queues).content i ++ logged i events) events :=
    fun hempty i => h.due_written (fun i => List.prefix_refl _) (hempty i)
  unfold State.Covered at hcovered
  unfold Owes
  cases hpc : s.background with
  | loopCondition active =>
    rw [hpc] at hcovered
    exact hcovered.imp_right hempty
  | refresh active => trivial
  | polling active rest idle =>
    rw [hpc] at hcovered
    exact hcovered.imp_right (Or.imp (fun hall i _ => hempty hall i) fun hwaiting => hwaiting)
  | yieldTest active idle =>
    rw [hpc] at hcovered
    exact hcovered.imp_right hempty
  | breakTest active idle =>
    rw [hpc] at hcovered
    exact hcovered.imp_right hempty
  | exited =>
    rw [hpc] at hcovered
    exact hempty hcovered

/-- What holds from the shutdown on. -/
structure Flushing (queues : List ThreadQueue) (due : ℕ → List LogMessage) (events : List Event) (s : State) :
    Prop where
  history : History queues events s
  stopped : s.running = false
  due_logged : ∀ i, due i <+: (init queues).content i ++ logged i events
  owes : Owes due events s

theorem Flushing.step {due : ℕ → List LogMessage} (h : Flushing queues due events s)
    (hstep : AsyncLogger.step s a = some (e,s')) : Flushing queues due (events ++ [e]) s' where
  history := h.history.step hstep
  stopped := (step_cases hstep).running_eq h.stopped
  due_logged i := by
    rw [logged_append,← List.append_assoc]
    exact (h.due_logged i).trans (List.prefix_append _ _)
  owes := h.owes.step h.history h.stopped h.due_logged (step_cases hstep)

/-- A covered shutdown flushes: when the thread has stopped, all that was due is written. -/
theorem flushed_of_covered (h : History queues events s) (hcovered : s.Covered) {post : List Action}
    (hrun : run AsyncLogger.step s (.shutdown :: post) = some (events',s')) (hexited : s'.background = .exited) :
    Flushed (fun i => (init queues).content i ++ logged i events) (events ++ events') := by
  obtain ⟨e,s₁,events₁,hshutdown,hrest,rfl⟩ := run_cons_eq_some.mp hrun
  have hhistory := h.step hshutdown
  obtain ⟨rfl,rfl⟩ := Prod.mk.inj (Option.some.inj hshutdown)
  have howes : Owes (fun i => (init queues).content i ++ logged i events) (events ++ [.silent])
      { s with running := false } := by
    apply (Covered.owes h hcovered).mono
    · rfl
    · exact fun _ hwaiting => hwaiting
  have hstart : Flushing queues (fun i => (init queues).content i ++ logged i events) (events ++ [.silent])
      { s with running := false } := ⟨hhistory,rfl,fun i => by simp [logged_append],howes⟩
  have hend := (run_history_invariant_from (fun _ _ _ _ _ h hstep => h.step hstep) hstart hrest).owes
  unfold Owes at hend
  rw [hexited] at hend
  simpa using hend

/-- The background thread may stop without writing a message. -/
def QuietExit (s : State) : Prop :=
  ∃ actions events', run AsyncLogger.step s actions = some (events',{ s with background := .exited }) ∧
    ∀ i, written i events' = []

lemma quietExit_of_moves {pc pc' : BackgroundPc} (hpc : s.background = pc) (hmoves : Moves s pc pc')
    (h : QuietExit { s with background := pc' }) : QuietExit s := by
  subst hpc
  obtain ⟨actions,events',hrun,hwritten⟩ := h
  refine ⟨.background :: actions,.silent :: events',?_,fun i => ?_⟩
  · exact run_cons_eq_some.mpr ⟨_,_,_,backgroundStep_of_moves hmoves,hrun,rfl⟩
  · rw [← List.singleton_append,written_append,written_silent,hwritten]
    rfl

section Quiet
variable {activeQueues : List ℕ} (hstopped : s.running = false)
include hstopped

lemma quietExit_breakTest (hpc : s.background = .breakTest activeQueues true) : QuietExit s :=
  quietExit_of_moves hpc (.breaks activeQueues hstopped) ⟨[],[],rfl,fun _ => rfl⟩

lemma quietExit_yieldTest (hpc : s.background = .yieldTest activeQueues true) : QuietExit s :=
  quietExit_of_moves hpc (.yielded activeQueues true) (quietExit_breakTest hstopped rfl)

lemma quietExit_polling {rest : List ℕ} (hpc : s.background = .polling activeQueues rest true)
    (hempty : ∀ i ∈ rest, s.content i = []) : QuietExit s := by
  induction rest generalizing s with
  | nil => exact quietExit_of_moves hpc (.polled activeQueues true) (quietExit_yieldTest hstopped rfl)
  | cons i rest ih =>
    have hmoves : Moves s (.polling activeQueues (i :: rest) true) (.polling activeQueues rest true) :=
      .next (hempty i List.mem_cons_self)
    exact quietExit_of_moves hpc hmoves (ih hstopped rfl fun j hj => hempty j (List.mem_cons_of_mem _ hj))

end Quiet

/-- Where the shutdown is not covered, something is waiting and the thread may stop without
writing it. -/
lemma quietExit_of_not_covered (h : Consistent s) (hrunning : s.running = true) (hcovered : ¬ s.Covered) :
    (∃ i, s.content i ≠ []) ∧ QuietExit { s with running := false } := by
  unfold State.Covered at hcovered
  cases hpc : s.background with
  | loopCondition active =>
    rw [hpc] at hcovered
    simp only [not_or,not_not,not_forall] at hcovered
    obtain ⟨rfl,hwaiting⟩ := hcovered
    exact ⟨hwaiting,quietExit_of_moves rfl (.leave rfl) ⟨[],[],rfl,fun _ => rfl⟩⟩
  | refresh active =>
    rw [hpc] at hcovered
    exact absurd trivial hcovered
  | polling active rest idle =>
    rw [hpc] at hcovered
    simp only [not_or,Bool.not_eq_false,not_forall,not_exists,not_and,not_not] at hcovered
    obtain ⟨rfl,hwaiting,hempty⟩ := hcovered
    exact ⟨hwaiting,quietExit_polling rfl rfl hempty⟩
  | yieldTest active idle =>
    rw [hpc] at hcovered
    simp only [not_or,Bool.not_eq_false,not_forall] at hcovered
    obtain ⟨rfl,hwaiting⟩ := hcovered
    exact ⟨hwaiting,quietExit_yieldTest rfl rfl⟩
  | breakTest active idle =>
    rw [hpc] at hcovered
    simp only [not_or,Bool.not_eq_false,not_forall] at hcovered
    obtain ⟨rfl,hwaiting⟩ := hcovered
    exact ⟨hwaiting,quietExit_breakTest rfl rfl⟩
  | exited =>
    rw [h.exited hpc] at hrunning
    contradiction

/-- A shutdown loses no message logged before it, whatever the threads do afterwards, exactly when
the background thread then stands where it has still to go through all queues, or nothing is
waiting. -/
theorem shutdown_flushes_iff (queues : List ThreadQueue) (pre : List Action) (events : List Event) (s : State)
    (hrun : run AsyncLogger.step (init queues) pre = some (events,s)) (hrunning : s.running = true) :
    (∀ post events' s', run AsyncLogger.step s (.shutdown :: post) = some (events',s') →
      s'.background = .exited → ∀ i, (init queues).content i ++ logged i events <+: written i (events ++ events')) ↔
      s.Covered := by
  have h := history_of_run hrun
  constructor
  · intro hflushes
    by_contra hcovered
    obtain ⟨⟨i,hwaiting⟩,actions,events',hquiet,hwritten⟩ :=
      quietExit_of_not_covered h.consistent hrunning hcovered
    have hall : run AsyncLogger.step s (.shutdown :: actions) =
        some (.silent :: events',{ s with running := false, background := .exited }) :=
      run_cons_eq_some.mpr ⟨_,_,_,rfl,hquiet,rfl⟩
    have hprefix := (hflushes actions _ _ hall rfl i).length_le
    rw [h.fifo,written_append,← List.singleton_append,written_append,hwritten,written_silent] at hprefix
    have hpos := List.length_pos_iff.mpr hwaiting
    simp only [List.length_append,List.length_nil] at hprefix
    omega
  · intro hcovered post events' s' hpost hexited
    exact flushed_of_covered h hcovered hpost hexited

/-- The shutdown comes while the thread has still to poll the queue with the message. -/
theorem shutdown_flushes_iff_while_polling :
    run AsyncLogger.step (init [])
        [.registerThread 1,.background,.background,.push 0 (.log .info 7 1 (.ok [104,105]))] =
      some ([.silent,.silent,.silent,.logged 0 (.log .info 7 1 (.ok [104,105]))],
        ⟨true,[⟨1,[.log .info 7 1 (.ok [104,105])]⟩],.polling [0] [0] true⟩) ∧
    ∀ post events' s', run AsyncLogger.step
        ⟨true,[⟨1,[.log .info 7 1 (.ok [104,105])]⟩],.polling [0] [0] true⟩ (.shutdown :: post) = some (events',s') →
      s'.background = .exited → ∀ i, (init []).content i ++
        logged i [.silent,.silent,.silent,.logged 0 (.log .info 7 1 (.ok [104,105]))] <+:
          written i ([.silent,.silent,.silent,.logged 0 (.log .info 7 1 (.ok [104,105]))] ++ events') := by
  refine ⟨rfl,(shutdown_flushes_iff [] [.registerThread 1,.background,.background,
    .push 0 (.log .info 7 1 (.ok [104,105]))] _ _ rfl rfl).mpr ?_⟩
  exact .inr (.inr ⟨0,List.mem_cons_self,List.cons_ne_nil _ _⟩)

/-- A thread registers and logs before the background thread takes its first step: the shutdown
that follows ends the loop at its first test, and the message is never written. -/
theorem message_lost_before_first_pass :
    ∃ events s events' s', run AsyncLogger.step (init [])
        [.registerThread 1,.push 0 (.log .info 7 1 (.ok [104,105]))] = some (events,s) ∧
      run AsyncLogger.step s [.shutdown,.background] = some (events',s') ∧ s'.background = .exited ∧
      ¬ (init []).content 0 ++ logged 0 events <+: written 0 (events ++ events') := by
  refine ⟨_,_,_,_,rfl,rfl,rfl,fun hprefix => ?_⟩
  have hlength := hprefix.length_le
  revert hlength
  decide

end TickToTrade.AsyncLogger
