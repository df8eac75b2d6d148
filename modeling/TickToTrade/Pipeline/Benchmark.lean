import TickToTrade.Pipeline.Generator
import TickToTrade.Queue.Linearizable

/-! The two threads of a pipeline benchmark. The producer parses its buffers one after another and
spins on `push`; it raises `producer_done` at its end. The consumer counts what it has processed and
goes on while the flag is down or its count is short. What it does with a message is a parameter, as
the two benchmarks differ only there. -/
namespace TickToTrade.Benchmark
open SPSCQueue Itch Bytes Generator

/-- Where the consumer is in its loop. -/
inductive ConsumerPc
  | condition
  | popping
  | processing (msg : InternalMessage)
  | exited
  deriving DecidableEq, Repr

/-- `pushing` tells that the producer is at the message it has parsed last. -/
structure State (σ : Type) where
  buffers : List (List UInt8)
  parsedMsg : InternalMessage
  pushing : Bool
  queue : SPSCQueue.State InternalMessage
  producerDone : Bool
  consumer : ConsumerPc
  processed : ℕ
  work : σ

variable {σ : Type}

def init (buffers : List (List UInt8)) (parsedMsg : InternalMessage) (data : ℕ → InternalMessage) (start : σ) :
    State σ where
  buffers := buffers
  parsedMsg := parsedMsg
  pushing := false
  queue := SPSCQueue.init data
  producerDone := false
  consumer := .condition
  processed := 0
  work := start

inductive Action
  | parse
  | queue (a : SPSCQueue.Action InternalMessage)
  | finish
  | condition
  | process

/-- A push starts with the parsed message, a pop inside the consumer's loop. -/
def State.enables (s : State σ) : SPSCQueue.Action InternalMessage → Bool
  | .loadWrite item => s.pushing ∧ item = s.parsedMsg
  | .loadRead => s.consumer = .popping
  | _ => true

def State.observe (s : State σ) : Event InternalMessage → State σ
  | .pushed _ => { s with pushing := false }
  | .popped item => { s with consumer := .processing item }
  | .popEmpty => { s with consumer := .condition }
  | _ => s

/-- One atomic step of either thread; `numMessages` is `NUM_MESSAGES`. -/
def step (capacity numMessages : ℕ) (dispatch : σ → InternalMessage → Option σ) (s : State σ) :
    Action → Option (Unit × State σ)
  | .parse =>
    match s.buffers with
    | [] => none
    | buffer :: buffers =>
      if s.pushing then none
      else
        let (accepted,parsedMsg) := Itch.parse (ofBytes buffer) buffer.length s.parsedMsg
        some ((),{ s with buffers := buffers, parsedMsg := parsedMsg, pushing := accepted })
  | .queue a =>
    if s.enables a then do
      let (e,queue) ← SPSCQueue.step capacity s.queue a
      some ((),({ s with queue := queue } : State σ).observe e)
    else none
  | .finish =>
    if s.buffers = [] ∧ s.pushing = false ∧ s.producerDone = false then some ((),{ s with producerDone := true })
    else none
  | .condition =>
    if s.consumer = .condition then
      if s.producerDone = false ∨ s.processed < numMessages then some ((),{ s with consumer := .popping })
      else some ((),{ s with consumer := .exited })
    else none
  | .process =>
    match s.consumer with
    | .processing msg => do
      let work ← dispatch s.work msg
      some ((),{ s with work := work, processed := s.processed + 1, consumer := .condition })
    | _ => none

/-- The message that the producer is pushing. -/
def State.underPush (s : State σ) : List InternalMessage := if s.pushing then [s.parsedMsg] else []

/-- The message that the consumer has popped and not yet processed. -/
def State.popped (s : State σ) : List InternalMessage :=
  match s.consumer with
  | .processing msg => [msg]
  | _ => []

/-- A push under way is a push of the parsed message. -/
def Pushing (s : State σ) : ProducerPc InternalMessage → Prop
  | .idle => True
  | .loaded item _ => s.pushing = true ∧ item = s.parsedMsg
  | .checked item _ => s.pushing = true ∧ item = s.parsedMsg
  | .written item _ => s.pushing = true ∧ item = s.parsedMsg

/-- A pop is under way only where the consumer's loop calls it. -/
def Popping (s : State σ) : SPSCQueue.ConsumerPc InternalMessage → Prop
  | .idle => True
  | _ => s.consumer = .popping

/-- How a run stands to the messages of all its buffers: those processed, the one popped, the ones in
the ring, the one being pushed and those still to be parsed are, in this order, all of them. -/
structure Tracks (capacity numMessages : ℕ) (dispatch : σ → InternalMessage → Option σ) (start : σ)
    (all done content : List InternalMessage) (s : State σ) : Prop where
  worked : done.foldlM dispatch start = some s.work
  processed : done.length = s.processed
  holds : ∃ base, Holds capacity base content s.queue
  inOrder : done ++ s.popped ++ content ++ s.underPush ++ parsed s.parsedMsg s.buffers = all
  pushing : Pushing s s.queue.producer
  popping : Popping s s.queue.consumer
  finished : s.producerDone = true → s.buffers = [] ∧ s.pushing = false
  exited : s.consumer = .exited → s.producerDone = true ∧ numMessages ≤ s.processed

variable {capacity numMessages : ℕ} {dispatch : σ → InternalMessage → Option σ} {start : σ}
  {all done content : List InternalMessage} {s s' : State σ}

lemma tracks_init (hcap : 2 ≤ capacity) (buffers : List (List UInt8)) (parsedMsg : InternalMessage)
    (data : ℕ → InternalMessage) (start : σ) :
    Tracks capacity numMessages dispatch start (parsed parsedMsg buffers) [] []
      (init buffers parsedMsg data start) where
  worked := rfl
  processed := rfl
  holds := ⟨0,holds_init hcap data⟩
  inOrder := rfl
  pushing := trivial
  popping := trivial
  finished h := by simp [init] at h
  exited h := by simp [init] at h

/-- What a step of the ring means to the two threads. -/
lemma enabled_step {a : SPSCQueue.Action InternalMessage} {e : Event InternalMessage}
    {queue : SPSCQueue.State InternalMessage} (hpush : Pushing s s.queue.producer)
    (hpop : Popping s s.queue.consumer) (ha : s.enables a = true)
    (hstep : SPSCQueue.step capacity s.queue a = some (e,queue)) :
    Pushing (({ s with queue := queue } : State σ).observe e) queue.producer ∧
    Popping (({ s with queue := queue } : State σ).observe e) queue.consumer ∧
    (∀ item, e = .pushed item → s.pushing = true ∧ item = s.parsedMsg) ∧
    ((∃ item, e = .popped item) ∨ e = .popEmpty → s.consumer = .popping) := by
  cases step_cases hstep with
  | loadWrite item hpc =>
    have hmsg : s.pushing = true ∧ item = s.parsedMsg := by simpa [State.enables] using ha
    exact ⟨hmsg,hpop,by simp,by simp⟩
  | full item w hpc hfull => exact ⟨trivial,hpop,by simp,by simp⟩
  | room item w hpc hroom =>
    rw [hpc] at hpush
    exact ⟨hpush,hpop,by simp,by simp⟩
  | writeData item w hpc =>
    rw [hpc] at hpush
    exact ⟨hpush,hpop,by simp,by simp⟩
  | storeWrite item w hpc =>
    rw [hpc] at hpush
    refine ⟨trivial,?_,?_,by simp⟩
    · revert hpop
      cases s.queue.consumer <;> exact id
    · intro x hx
      obtain rfl : item = x := by simpa using hx
      exact hpush
  | loadRead hpc =>
    have hloop : s.consumer = .popping := by simpa [State.enables] using ha
    exact ⟨hpush,hloop,by simp,by simp⟩
  | empty r hpc hempty =>
    rw [hpc] at hpop
    refine ⟨?_,trivial,by simp,fun _ => hpop⟩
    revert hpush
    cases s.queue.producer <;> exact id
  | items r hpc hitems =>
    rw [hpc] at hpop
    exact ⟨hpush,hpop,by simp,by simp⟩
  | readData r hpc =>
    rw [hpc] at hpop
    exact ⟨hpush,hpop,by simp,by simp⟩
  | storeRead r item hpc =>
    rw [hpc] at hpop
    refine ⟨?_,trivial,by simp,fun _ => hpop⟩
    revert hpush
    cases s.queue.producer <;> exact id

/-- A step of the ring moves a message along or leaves all of them where they are. -/
theorem Tracks.queue {a : SPSCQueue.Action InternalMessage} {e : Event InternalMessage}
    {queue : SPSCQueue.State InternalMessage} (h : Tracks capacity numMessages dispatch start all done content s)
    (ha : s.enables a = true) (hstep : SPSCQueue.step capacity s.queue a = some (e,queue)) :
    ∃ content', Fifo (capacity - 1) content e content' ∧
      Tracks capacity numMessages dispatch start all done content' (({ s with queue := queue } : State σ).observe e) := by
  obtain ⟨hpush,hpop,hpushed,hpopped⟩ := enabled_step h.pushing h.popping ha hstep
  obtain ⟨base,hholds⟩ := h.holds
  obtain ⟨base',content',hfifo,hholds'⟩ := hholds.step hstep
  refine ⟨content',hfifo,?_⟩
  have horder := h.inOrder
  cases hfifo with
  | silent => exact ⟨h.worked,h.processed,⟨base',hholds'⟩,horder,hpush,hpop,h.finished,h.exited⟩
  | full => exact ⟨h.worked,h.processed,⟨base',hholds'⟩,horder,hpush,hpop,h.finished,h.exited⟩
  | empty =>
    have hloop := hpopped (.inr rfl)
    refine ⟨h.worked,h.processed,⟨base',hholds'⟩,?_,hpush,hpop,h.finished,by simp [State.observe]⟩
    rw [← horder]
    change done ++ [] ++ [] ++ s.underPush ++ parsed s.parsedMsg s.buffers = _
    simp [State.popped,hloop]
  | push room =>
    rename_i item
    obtain ⟨hpushing,rfl⟩ := hpushed item rfl
    refine ⟨h.worked,h.processed,⟨base',hholds'⟩,?_,hpush,hpop,fun hdone => ⟨(h.finished hdone).1,rfl⟩,h.exited⟩
    rw [← horder]
    simp [State.observe,State.popped,State.underPush,hpushing]
  | pop item =>
    have hloop := hpopped (.inl ⟨item,rfl⟩)
    refine ⟨h.worked,h.processed,⟨base',hholds'⟩,?_,hpush,hpop,h.finished,by simp [State.observe]⟩
    rw [← horder]
    change done ++ [item] ++ content' ++ s.underPush ++ parsed s.parsedMsg s.buffers = _
    simp [State.popped,hloop]

/-- Every step of either thread keeps the messages in order, and only a step of the ring changes
what the ring holds. -/
theorem Tracks.step {a : Action} {u : Unit} (h : Tracks capacity numMessages dispatch start all done content s)
    (hstep : Benchmark.step capacity numMessages dispatch s a = some (u,s')) :
    ∃ done' content', Tracks capacity numMessages dispatch start all done' content' s' ∧
      ((∀ b, a ≠ .queue b) → content' = content) := by
  have horder := h.inOrder
  have hpushing := h.pushing
  have hpopping := h.popping
  cases a with
  | parse =>
    simp only [Benchmark.step] at hstep
    split at hstep
    · contradiction
    · rename_i buffer buffers hbuffers
      split at hstep
      · contradiction
      · rename_i hidle
        obtain ⟨_,rfl⟩ := Prod.mk.inj (Option.some.inj hstep)
        refine ⟨done,content,⟨h.worked,h.processed,h.holds,?_,?_,h.popping,fun hdone => ?_,h.exited⟩,fun _ => rfl⟩
        · rw [← horder,hbuffers,parsed]
          cases hparse : Itch.parse (ofBytes buffer) buffer.length s.parsedMsg with
          | mk accepted msg => cases accepted <;> simp [State.underPush,State.popped,hidle]
        · -- no push is under way before the message is parsed
          cases hpc : s.queue.producer <;> simp_all [Pushing]
        · rw [(h.finished hdone).1] at hbuffers
          contradiction
  | queue a =>
    simp only [Benchmark.step] at hstep
    split at hstep
    · rename_i ha
      obtain ⟨⟨e,queue⟩,hqueue,hstep⟩ := Option.bind_eq_some_iff.mp hstep
      obtain ⟨_,rfl⟩ := Prod.mk.inj (Option.some.inj hstep)
      obtain ⟨content',_,hnext⟩ := h.queue ha hqueue
      exact ⟨done,content',hnext,fun hne => absurd rfl (hne a)⟩
    · contradiction
  | finish =>
    simp only [Benchmark.step] at hstep
    split at hstep
    · rename_i hend
      obtain ⟨_,rfl⟩ := Prod.mk.inj (Option.some.inj hstep)
      refine ⟨done,content,⟨h.worked,h.processed,h.holds,horder,hpushing,hpopping,fun _ => ⟨hend.1,hend.2.1⟩,?_⟩,
        fun _ => rfl⟩
      exact fun hexit => ⟨rfl,(h.exited hexit).2⟩
    · contradiction
  | condition =>
    simp only [Benchmark.step] at hstep
    split at hstep
    · rename_i hpc
      have hring : s.queue.consumer = .idle := by
        cases hring : s.queue.consumer <;> simp_all [Popping]
      split at hstep
      · obtain ⟨_,rfl⟩ := Prod.mk.inj (Option.some.inj hstep)
        refine ⟨done,content,⟨h.worked,h.processed,h.holds,?_,hpushing,by rw [hring]; trivial,h.finished,by simp⟩,
          fun _ => rfl⟩
        rw [← horder]
        simp [State.popped,State.underPush,hpc]
      · rename_i hends
        obtain ⟨_,rfl⟩ := Prod.mk.inj (Option.some.inj hstep)
        simp only [not_or,Bool.not_eq_false,Nat.not_lt] at hends
        refine ⟨done,content,⟨h.worked,h.processed,h.holds,?_,hpushing,by rw [hring]; trivial,h.finished,
          fun _ => hends⟩,fun _ => rfl⟩
        rw [← horder]
        simp [State.popped,State.underPush,hpc]
    · contradiction
  | process =>
    simp only [Benchmark.step] at hstep
    split at hstep
    · rename_i msg hpc
      have hring : s.queue.consumer = .idle := by
        cases hring : s.queue.consumer <;> simp_all [Popping]
      obtain ⟨work,hwork,hstep⟩ := Option.bind_eq_some_iff.mp hstep
      obtain ⟨_,rfl⟩ := Prod.mk.inj (Option.some.inj hstep)
      refine ⟨done ++ [msg],content,⟨?_,?_,h.holds,?_,hpushing,by rw [hring]; trivial,h.finished,by simp⟩,
        fun _ => rfl⟩
      · rw [List.foldlM_append,h.worked]
        simp [hwork]
      · simp [h.processed]
      · rw [← horder]
        simp [State.popped,State.underPush,hpc]
    · contradiction

theorem tracks_of_run (hcap : 2 ≤ capacity) {buffers : List (List UInt8)} {parsedMsg : InternalMessage}
    {data : ℕ → InternalMessage} {actions : List Action} {us : List Unit}
    (hrun : run (Benchmark.step capacity numMessages dispatch) (init buffers parsedMsg data start) actions =
      some (us,s)) :
    ∃ done content, Tracks capacity numMessages dispatch start (parsed parsedMsg buffers) done content s := by
  refine run_invariant (I := fun s => ∃ done content,
    Tracks capacity numMessages dispatch start (parsed parsedMsg buffers) done content s) ?_ ⟨[],[],tracks_init hcap ..⟩ hrun
  rintro s a u s' ⟨done,content,h⟩ hstep
  obtain ⟨done',content',hnext,_⟩ := h.step hstep
  exact ⟨done',content',hnext⟩

lemma length_parsed_le (parsedMsg : InternalMessage) (buffers : List (List UInt8)) :
    (parsed parsedMsg buffers).length ≤ buffers.length := by
  induction buffers generalizing parsedMsg with
  | nil => rfl
  | cons buffer buffers ih =>
    rw [parsed]
    dsimp only
    split
    · exact Nat.succ_le_succ (ih _)
    · exact (ih _).trans (Nat.le_succ _)

lemma Tracks.done_eq_all (h : Tracks capacity numMessages dispatch start all done content s)
    (hexit : s.consumer = .exited) (hall : all.length ≤ numMessages) : done = all ∧ all.length = numMessages := by
  have hlength := congrArg List.length h.inOrder
  simp only [List.length_append] at hlength
  have hprocessed := h.processed
  have hcount := (h.exited hexit).2
  have hrest : (s.popped ++ content ++ s.underPush ++ parsed s.parsedMsg s.buffers).length = 0 := by
    simp only [List.length_append]
    omega
  have horder := h.inOrder
  simp only [List.append_assoc] at horder hrest
  rw [List.eq_nil_of_length_eq_zero hrest,List.append_nil] at horder
  exact ⟨horder,by omega⟩

end TickToTrade.Benchmark
