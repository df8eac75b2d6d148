import TickToTrade.Logger.Message
import TickToTrade.Library.Run

/-! The logger's threads. Producers push into their queues while the background thread goes through
its loop; one action is one atomic step of a thread. The ring of a queue is seen through what it
stands for, a sequence of messages from which `pop` takes the first. -/
namespace TickToTrade.AsyncLogger

def queueCapacity : ℕ := 1024

/-- A queue that a producer thread has registered. -/
structure ThreadQueue where
  threadId : UInt32
  queue : List LogMessage

/-- Where the background thread is, with the locals it still needs; a queue pointer is the index
of the queue. -/
inductive BackgroundPc
  | loopCondition (activeQueues : List ℕ)
  | refresh (activeQueues : List ℕ)
  | polling (activeQueues rest : List ℕ) (idle : Bool)
  | yieldTest (activeQueues : List ℕ) (idle : Bool)
  | breakTest (activeQueues : List ℕ) (idle : Bool)
  | exited
  deriving DecidableEq, Repr

structure State where
  running : Bool
  threadQueues : List ThreadQueue
  background : BackgroundPc

/-- After `init`; the queues of earlier sessions are still registered. -/
def init (threadQueues : List ThreadQueue) : State := ⟨true,threadQueues,.loopCondition []⟩

inductive Action
  | registerThread (threadId : UInt32)
  | push (queue : ℕ) (msg : LogMessage)
  | background
  | shutdown

/-- What a step shows: the return of a `log` call, a message passed to `writeToFile`, or nothing. -/
inductive Event
  | silent
  | logged (queue : ℕ) (msg : LogMessage)
  | written (queue : ℕ) (msg : LogMessage)

/-- The messages waiting in a queue. -/
def State.content (s : State) (i : ℕ) : List LogMessage := (s.threadQueues[i]?).elim [] ThreadQueue.queue

def State.modifyQueue (s : State) (i : ℕ) (f : List LogMessage → List LogMessage) : State :=
  { s with threadQueues := s.threadQueues.modify i fun tq => { tq with queue := f tq.queue } }

/-- The cached list of queues, rebuilt when its size is not that of the registered queues. -/
def State.refreshed (s : State) (activeQueues : List ℕ) : List ℕ :=
  if activeQueues.length ≠ s.threadQueues.length then List.range s.threadQueues.length else activeQueues

/-- The next step of `backgroundThreadFunc`. -/
def backgroundStep (s : State) : Option (Event × State) :=
  match s.background with
  | .loopCondition activeQueues =>
    if s.running ∨ activeQueues ≠ [] then some (.silent,{ s with background := .refresh activeQueues })
    else some (.silent,{ s with background := .exited })
  | .refresh activeQueues =>
    let activeQueues := s.refreshed activeQueues
    some (.silent,{ s with background := .polling activeQueues activeQueues true })
  | .polling activeQueues [] idle => some (.silent,{ s with background := .yieldTest activeQueues idle })
  | .polling activeQueues (i :: rest) idle =>
    match s.content i with
    | [] => some (.silent,{ s with background := .polling activeQueues rest idle })
    | msg :: _ => some (.written i msg,
        { s.modifyQueue i List.tail with background := .polling activeQueues (i :: rest) false })
  | .yieldTest activeQueues idle =>
    -- the load of `running_` decides only whether the thread yields
    some (.silent,{ s with background := .breakTest activeQueues idle })
  | .breakTest activeQueues idle =>
    if s.running = false ∧ idle = true then some (.silent,{ s with background := .exited })
    else some (.silent,{ s with background := .loopCondition activeQueues })
  | .exited => none

/-- A push waits while the ring is full. -/
def step (s : State) : Action → Option (Event × State)
  | .registerThread threadId =>
    if s.threadQueues.any fun tq => tq.threadId = threadId then some (.silent,s)
    else some (.silent,{ s with threadQueues := s.threadQueues ++ [⟨threadId,[]⟩] })
  | .push i msg =>
    if i < s.threadQueues.length ∧ (s.content i).length + 1 < queueCapacity then
      some (.logged i msg,s.modifyQueue i fun queue => queue ++ [msg])
    else none
  | .background => backgroundStep s
  | .shutdown => some (.silent,{ s with running := false })

/-- Messages of one queue whose `log` call has returned. -/
def logged (i : ℕ) (events : List Event) : List LogMessage :=
  events.filterMap fun
    | .logged j msg => if j = i then some msg else none
    | _ => none

/-- Messages of one queue that were passed to `writeToFile`. -/
def written (i : ℕ) (events : List Event) : List LogMessage :=
  events.filterMap fun
    | .written j msg => if j = i then some msg else none
    | _ => none

/-- At the moment of the shutdown the background thread has still to go through all queues, or
nothing is waiting. -/
def State.Covered (s : State) : Prop :=
  match s.background with
  | .loopCondition activeQueues => activeQueues ≠ [] ∨ ∀ i, s.content i = []
  | .refresh _ => True
  | .polling _ rest idle => idle = false ∨ (∀ i, s.content i = []) ∨ ∃ i ∈ rest, s.content i ≠ []
  | .yieldTest _ idle => idle = false ∨ ∀ i, s.content i = []
  | .breakTest _ idle => idle = false ∨ ∀ i, s.content i = []
  | .exited => ∀ i, s.content i = []

section Content
variable (s : State)

@[simp] lemma content_modifyQueue (i j : ℕ) (f : List LogMessage → List LogMessage) (hf : i < s.threadQueues.length) :
    (s.modifyQueue i f).content j = if j = i then f (s.content i) else s.content j := by
  unfold State.content State.modifyQueue
  rw [List.getElem?_modify]
  by_cases hj : j = i
  · subst hj
    simp [List.getElem?_eq_getElem hf]
  · rw [if_neg hj]
    simp [Ne.symm hj]

@[simp] lemma length_modifyQueue (i : ℕ) (f : List LogMessage → List LogMessage) :
    (s.modifyQueue i f).threadQueues.length = s.threadQueues.length := by
  simp [State.modifyQueue]

lemma content_eq_nil {i : ℕ} (h : s.threadQueues.length ≤ i) : s.content i = [] := by
  simp [State.content,List.getElem?_eq_none h]

lemma lt_of_content {i : ℕ} (h : s.content i ≠ []) : i < s.threadQueues.length := by
  by_contra hle
  exact h (content_eq_nil s (Nat.le_of_not_lt hle))

end Content

section Events

lemma logged_append (i : ℕ) (events events' : List Event) :
    logged i (events ++ events') = logged i events ++ logged i events' := List.filterMap_append

lemma written_append (i : ℕ) (events events' : List Event) :
    written i (events ++ events') = written i events ++ written i events' := List.filterMap_append

@[simp] lemma logged_silent (i : ℕ) : logged i [.silent] = [] := rfl

@[simp] lemma written_silent (i : ℕ) : written i [.silent] = [] := rfl

@[simp] lemma logged_written (i j : ℕ) (msg : LogMessage) : logged i [.written j msg] = [] := rfl

@[simp] lemma written_logged (i j : ℕ) (msg : LogMessage) : written i [.logged j msg] = [] := rfl

@[simp] lemma logged_logged (i j : ℕ) (msg : LogMessage) :
    logged i [.logged j msg] = if j = i then [msg] else [] := by
  by_cases hj : j = i <;> simp [logged,hj]

@[simp] lemma written_written (i j : ℕ) (msg : LogMessage) :
    written i [.written j msg] = if j = i then [msg] else [] := by
  by_cases hj : j = i <;> simp [written,hj]

end Events

/-- The local variables of the background thread; `idle` starts as true in each pass. -/
def BackgroundPc.activeQueues : BackgroundPc → List ℕ
  | .loopCondition activeQueues => activeQueues
  | .refresh activeQueues => activeQueues
  | .polling activeQueues _ _ => activeQueues
  | .yieldTest activeQueues _ => activeQueues
  | .breakTest activeQueues _ => activeQueues
  | .exited => []

def BackgroundPc.rest : BackgroundPc → List ℕ
  | .polling _ rest _ => rest
  | _ => []

def BackgroundPc.idle : BackgroundPc → Bool
  | .polling _ _ idle => idle
  | .yieldTest _ idle => idle
  | .breakTest _ idle => idle
  | _ => true

/-- The moves of the background thread that touch no queue. -/
inductive Moves (s : State) : BackgroundPc → BackgroundPc → Prop
  | enter {activeQueues} (goes : s.running = true ∨ activeQueues ≠ []) :
      Moves s (.loopCondition activeQueues) (.refresh activeQueues)
  | leave (stopped : s.running = false) : Moves s (.loopCondition []) .exited
  | refresh (activeQueues) : Moves s (.refresh activeQueues)
      (.polling (s.refreshed activeQueues) (s.refreshed activeQueues) true)
  | next {activeQueues i rest idle} (empty : s.content i = []) :
      Moves s (.polling activeQueues (i :: rest) idle) (.polling activeQueues rest idle)
  | polled (activeQueues idle) : Moves s (.polling activeQueues [] idle) (.yieldTest activeQueues idle)
  | yielded (activeQueues idle) : Moves s (.yieldTest activeQueues idle) (.breakTest activeQueues idle)
  | breaks (activeQueues) (stopped : s.running = false) : Moves s (.breakTest activeQueues true) .exited
  | again {activeQueues idle} (goes : s.running = true ∨ idle = false) :
      Moves s (.breakTest activeQueues idle) (.loopCondition activeQueues)

/-- Everything one step can do: a thread registers, a message is pushed, the shutdown is asked
for, the background thread takes a message, or it moves on without touching a queue. -/
inductive Effect (s : State) : Event → State → Prop
  | same : Effect s .silent s
  | registered (threadId : UInt32) : Effect s .silent { s with threadQueues := s.threadQueues ++ [⟨threadId,[]⟩] }
  | pushed (i : ℕ) (msg : LogMessage) (registered : i < s.threadQueues.length) :
      Effect s (.logged i msg) (s.modifyQueue i fun queue => queue ++ [msg])
  | stopped : Effect s .silent { s with running := false }
  | popped (activeQueues : List ℕ) (i : ℕ) (rest : List ℕ) (idle : Bool) (msg : LogMessage) (queue : List LogMessage)
      (at_pc : s.background = .polling activeQueues (i :: rest) idle) (waiting : s.content i = msg :: queue) :
      Effect s (.written i msg)
        { s.modifyQueue i List.tail with background := .polling activeQueues (i :: rest) false }
  | moved (pc : BackgroundPc) (moves : Moves s s.background pc) : Effect s .silent { s with background := pc }

variable {s s' : State} {a : Action} {e : Event} {events events' : List Event}

lemma backgroundStep_of_moves {pc : BackgroundPc} (h : Moves s s.background pc) :
    backgroundStep s = some (.silent,{ s with background := pc }) := by
  unfold backgroundStep
  generalize s.background = at_pc at h
  cases h with
  | enter goes => simp [goes]
  | leave stopped => simp [stopped]
  | refresh active => rfl
  | next empty => simp [empty]
  | polled active idle => rfl
  | yielded active idle => rfl
  | breaks active stopped => simp [stopped]
  | again goes =>
    rcases goes with hrunning | hidle
    · simp [hrunning]
    · simp [hidle]

lemma backgroundStep_cases (h : backgroundStep s = some (e,s')) : Effect s e s' := by
  unfold backgroundStep at h
  split at h
  · rename_i hpc
    split at h
    · rename_i hgoes
      obtain ⟨rfl,rfl⟩ := Prod.mk.inj (Option.some.inj h)
      exact .moved _ (hpc ▸ .enter hgoes)
    · rename_i hstops
      obtain ⟨rfl,rfl⟩ := Prod.mk.inj (Option.some.inj h)
      simp only [not_or,Bool.not_eq_true,not_not] at hstops
      obtain ⟨hrunning,rfl⟩ := hstops
      exact .moved _ (hpc ▸ .leave hrunning)
  · rename_i hpc
    obtain ⟨rfl,rfl⟩ := Prod.mk.inj (Option.some.inj h)
    exact .moved _ (hpc ▸ .refresh _)
  · rename_i hpc
    obtain ⟨rfl,rfl⟩ := Prod.mk.inj (Option.some.inj h)
    exact .moved _ (hpc ▸ .polled _ _)
  · rename_i hpc
    split at h
    · rename_i hempty
      obtain ⟨rfl,rfl⟩ := Prod.mk.inj (Option.some.inj h)
      exact .moved _ (hpc ▸ .next hempty)
    · rename_i hwaiting
      obtain ⟨rfl,rfl⟩ := Prod.mk.inj (Option.some.inj h)
      exact .popped _ _ _ _ _ _ hpc hwaiting
  · rename_i hpc
    obtain ⟨rfl,rfl⟩ := Prod.mk.inj (Option.some.inj h)
    exact .moved _ (hpc ▸ .yielded _ _)
  · rename_i hpc
    split at h
    · rename_i hbreaks
      obtain ⟨hrunning,rfl⟩ := hbreaks
      obtain ⟨rfl,rfl⟩ := Prod.mk.inj (Option.some.inj h)
      exact .moved _ (hpc ▸ .breaks _ hrunning)
    · rename_i idle hgoes
      obtain ⟨rfl,rfl⟩ := Prod.mk.inj (Option.some.inj h)
      have hgoes' : s.running = true ∨ idle = false := by
        cases hr : s.running <;> cases hi : idle <;> simp_all
      exact .moved _ (hpc ▸ .again hgoes')
  · contradiction

theorem step_cases (h : step s a = some (e,s')) : Effect s e s' := by
  cases a with
  | registerThread threadId =>
    simp only [step] at h
    split at h
    · obtain ⟨rfl,rfl⟩ := Prod.mk.inj (Option.some.inj h)
      exact .same
    · obtain ⟨rfl,rfl⟩ := Prod.mk.inj (Option.some.inj h)
      exact .registered threadId
  | push i msg =>
    simp only [step] at h
    split at h
    · rename_i hroom
      obtain ⟨rfl,rfl⟩ := Prod.mk.inj (Option.some.inj h)
      exact .pushed i msg hroom.1
    · contradiction
  | background => exact backgroundStep_cases h
  | shutdown =>
    obtain ⟨rfl,rfl⟩ := Prod.mk.inj (Option.some.inj h)
    exact .stopped

lemma content_register (s : State) (threadId : UInt32) (i : ℕ) :
    ({ s with threadQueues := s.threadQueues ++ [⟨threadId,[]⟩] } : State).content i = s.content i := by
  unfold State.content
  rcases Nat.lt_trichotomy i s.threadQueues.length with hlt | heq | hgt
  · rw [List.getElem?_append_left hlt]
  · subst heq
    simp
  · rw [List.getElem?_eq_none (by simpa using hgt),List.getElem?_eq_none (Nat.le_of_lt hgt)]

/-- Every queue is first in, first out: one step. -/
lemma Effect.conserves (h : Effect s e s') (i : ℕ) :
    written i [e] ++ s'.content i = s.content i ++ logged i [e] := by
  cases h with
  | same => simp
  | registered threadId => simp [content_register]
  | pushed j msg hj =>
    by_cases hij : i = j
    · subst hij
      simp [hj]
    · simp [hj,hij,Ne.symm hij]
  | stopped => simp [State.content]
  | popped active j rest idle msg queue hpc hwaiting =>
    have hj := lt_of_content s (i := j) (by simp [hwaiting])
    have hcontent := content_modifyQueue s j i List.tail hj
    rw [hwaiting,List.tail_cons] at hcontent
    change written i [.written j msg] ++ (s.modifyQueue j List.tail).content i = _
    by_cases hij : i = j
    · subst hij
      simp [hcontent,hwaiting]
    · simp [hcontent,hij,Ne.symm hij]
  | moved pc hmoves => simp [State.content]

lemma Effect.length_le (h : Effect s e s') : s.threadQueues.length ≤ s'.threadQueues.length := by
  cases h <;> simp

lemma Effect.logged_eq_nil (h : Effect s e s') {i : ℕ} (hi : s'.threadQueues.length ≤ i) : logged i [e] = [] := by
  cases h with
  | pushed j msg hj =>
    rw [length_modifyQueue] at hi
    rw [logged_logged,if_neg (by omega)]
  | _ => rfl

end TickToTrade.AsyncLogger
