import TickToTrade.Pipeline.Benchmark

/-! Neither thread of a benchmark can be stuck: wherever a schedule has led, some continuation lets
the consumer leave its loop, as long as every buffer parses. A buffer that does not parse is never
counted, and then the consumer spins for ever. -/
namespace TickToTrade.Benchmark
open SPSCQueue Itch Bytes Generator

variable {σ : Type} {capacity numMessages : ℕ} {dispatch : σ → InternalMessage → Option σ} {start : σ}
  {all done content : List InternalMessage} {s s' : State σ}

def producerRank : ProducerPc InternalMessage → ℕ
  | .idle => 4
  | .loaded .. => 3
  | .checked .. => 2
  | .written .. => 1

/-- How far the consumer is from its next message, or from its exit once nothing can come any more. -/
def consumerRank (closing : Bool) : ConsumerPc → SPSCQueue.ConsumerPc InternalMessage → ℕ
  | .condition, _ => bif closing then 1 else 6
  | .popping, .idle => bif closing then 3 else 5
  | .popping, .loaded _ => bif closing then 2 else 4
  | .popping, .checked _ => 3
  | .popping, .copied .. => 2
  | .processing _, _ => 8
  | .exited, _ => 0

/-- What is left to do: every buffer costs more than its push, its pop and its turn of the loop. -/
def rank (s : State σ) (content : List InternalMessage) : ℕ :=
  24 * s.buffers.length + (bif s.pushing then 12 + producerRank s.queue.producer else 0) + 10 * content.length +
    (bif s.producerDone then 0 else 8) +
    consumerRank (s.producerDone && content.isEmpty) s.consumer s.queue.consumer

/-- Some step brings the end nearer. -/
def Advances (capacity numMessages : ℕ) (dispatch : σ → InternalMessage → Option σ) (start : σ)
    (all content : List InternalMessage) (s : State σ) : Prop :=
  ∃ a s' done' content', Benchmark.step capacity numMessages dispatch s a = some ((),s') ∧
    Tracks capacity numMessages dispatch start all done' content' s' ∧ rank s' content' < rank s content

lemma Tracks.advances_queue (h : Tracks capacity numMessages dispatch start all done content s)
    (a : SPSCQueue.Action InternalMessage) {e : Event InternalMessage} {q : SPSCQueue.State InternalMessage}
    (ha : s.enables a = true) (hstep : SPSCQueue.step capacity s.queue a = some (e,q))
    (hrank : ∀ content', Fifo (capacity - 1) content e content' →
      rank (({ s with queue := q } : State σ).observe e) content' < rank s content) :
    Advances capacity numMessages dispatch start all content s := by
  obtain ⟨content',hfifo,hnext⟩ := h.queue ha hstep
  refine ⟨.queue a,_,done,content',?_,hnext,hrank content' hfifo⟩
  simp only [Benchmark.step]
  rw [if_pos ha,hstep]
  rfl

lemma Tracks.advances_local (h : Tracks capacity numMessages dispatch start all done content s) (a : Action)
    {t : State σ} (ha : ∀ b, a ≠ .queue b) (hstep : Benchmark.step capacity numMessages dispatch s a = some ((),t))
    (hrank : rank t content < rank s content) : Advances capacity numMessages dispatch start all content s := by
  obtain ⟨done',content',hnext,hsame⟩ := h.step hstep
  obtain rfl := hsame ha
  exact ⟨a,t,done',content',hstep,hnext,hrank⟩

/-- The consumer at a popped message processes it, if the work takes every message. -/
lemma Tracks.advances_process (h : Tracks capacity numMessages dispatch start all done content s)
    (hreturns : (all.foldlM dispatch start).isSome) {msg : InternalMessage} (hpc : s.consumer = .processing msg) :
    Advances capacity numMessages dispatch start all content s := by
  obtain ⟨work,hwork⟩ : ∃ work, dispatch s.work msg = some work := by
    rw [← h.inOrder,State.popped,hpc] at hreturns
    simp only [List.append_assoc,List.foldlM_append,List.singleton_append,List.foldlM_cons] at hreturns
    rw [h.worked] at hreturns
    apply Option.isSome_iff_exists.mp
    by_contra hnone
    rw [Option.not_isSome_iff_eq_none] at hnone
    simp [hnone] at hreturns
  refine h.advances_local .process (by simp)
    (t := { s with work := work, processed := s.processed + 1, consumer := .condition }) ?_ ?_
  · simp [Benchmark.step,hpc,hwork]
  · simp only [rank,hpc,consumerRank]
    cases s.producerDone && content.isEmpty <;> simp

/-- While the ring holds a message the consumer gets to it. -/
lemma Tracks.advances_pop (h : Tracks capacity numMessages dispatch start all done content s)
    (hcontent : content ≠ []) (hidle : ∀ msg, s.consumer ≠ .processing msg) (hrunning : s.consumer ≠ .exited)
    (hshort : s.processed < numMessages) : Advances capacity numMessages dispatch start all content s := by
  have hclosing : (s.producerDone && content.isEmpty) = false := by simp [hcontent]
  obtain ⟨base,hholds⟩ := h.holds
  cases hpc : s.consumer with
  | condition =>
    refine h.advances_local .condition (by simp) (t := { s with consumer := .popping }) ?_ ?_
    · simp [Benchmark.step,hpc,hshort]
    · have hring := h.popping
      simp only [rank,hpc,hclosing]
      cases hring : s.queue.consumer <;> simp [consumerRank]
  | popping =>
    have hknown := hholds.consumer
    cases hring : s.queue.consumer with
    | idle =>
      refine h.advances_queue .loadRead (e := .silent) (q := { s.queue with consumer := .loaded s.queue.readIndex })
        (by simp [State.enables,hpc]) (by simp [SPSCQueue.step,hring]) ?_
      rintro content' ⟨⟩
      simp [rank,State.observe,hclosing,hpc,hring,consumerRank]
    | loaded r =>
      rw [hring] at hknown
      obtain rfl : r = s.queue.readIndex := hknown
      have hitems : s.queue.readIndex ≠ s.queue.writeIndex := fun heq => hcontent (hholds.empty_iff.mp heq)
      refine h.advances_queue .checkEmpty (e := .silent)
        (q := { s.queue with consumer := .checked s.queue.readIndex }) rfl (by simp [SPSCQueue.step,hring,hitems]) ?_
      rintro content' ⟨⟩
      simp [rank,State.observe,hclosing,hpc,hring,consumerRank]
    | checked r =>
      refine h.advances_queue .readData (e := .silent)
        (q := { s.queue with consumer := .copied r (s.queue.data r) }) rfl (by simp [SPSCQueue.step,hring]) ?_
      rintro content' ⟨⟩
      simp [rank,State.observe,hpc,hring,consumerRank]
    | copied r item =>
      refine h.advances_queue .storeRead (e := .popped item)
        (q := { s.queue with readIndex := (r + 1) % capacity, consumer := .idle }) rfl
        (by simp [SPSCQueue.step,hring]) ?_
      rintro content' ⟨⟩
      simp only [rank,State.observe,hpc,hring,consumerRank,List.length_cons]
      omega
  | processing msg => exact absurd hpc (hidle msg)
  | exited => exact absurd hpc hrunning

/-- Once the ring is empty the producer gets its message in, or parses the next buffer, or ends. -/
lemma Tracks.advances_push (hcap : 2 ≤ capacity) (h : Tracks capacity numMessages dispatch start all done [] s)
    (hproducing : s.producerDone = false) : Advances capacity numMessages dispatch start all [] s := by
  obtain ⟨base,hholds⟩ := h.holds
  cases hpushing : s.pushing with
  | true =>
    have hknown := hholds.producer
    cases hring : s.queue.producer with
    | idle =>
      refine h.advances_queue (.loadWrite s.parsedMsg) (e := .silent)
        (q := { s.queue with producer := .loaded s.parsedMsg s.queue.writeIndex })
        (by simp [State.enables,hpushing]) (by simp [SPSCQueue.step,hring]) ?_
      rintro content' ⟨⟩
      simp [rank,State.observe,hpushing,hring,producerRank]
    | loaded item w =>
      rw [hring] at hknown
      obtain rfl : w = s.queue.writeIndex := hknown
      have hroom : (s.queue.writeIndex + 1) % capacity ≠ s.queue.readIndex := by
        rw [Ne,hholds.full_iff,List.length_nil]
        omega
      refine h.advances_queue .checkFull (e := .silent)
        (q := { s.queue with producer := .checked item s.queue.writeIndex }) rfl
        (by simp [SPSCQueue.step,hring,hroom]) ?_
      rintro content' ⟨⟩
      simp [rank,State.observe,hpushing,hring,producerRank]
    | checked item w =>
      refine h.advances_queue .writeData (e := .silent)
        (q := { s.queue with data := Function.update s.queue.data w item, producer := .written item w }) rfl
        (by simp [SPSCQueue.step,hring]) ?_
      rintro content' ⟨⟩
      simp [rank,State.observe,hpushing,hring,producerRank]
    | written item w =>
      refine h.advances_queue .storeWrite (e := .pushed item)
        (q := { s.queue with writeIndex := (w + 1) % capacity, producer := .idle }) rfl
        (by simp [SPSCQueue.step,hring]) ?_
      rintro content' ⟨⟩
      simp [rank,State.observe,hpushing,hring,producerRank,hproducing]
  | false =>
    cases hbuffers : s.buffers with
    | nil =>
      refine h.advances_local .finish (by simp) (t := { s with producerDone := true }) ?_ ?_
      · simp [Benchmark.step,hbuffers,hpushing,hproducing]
      · simp only [rank,hproducing,Bool.false_and,Bool.true_and,List.isEmpty_nil]
        cases s.consumer <;> cases s.queue.consumer <;> simp [consumerRank]
    | cons buffer buffers =>
      obtain ⟨accepted,parsedMsg,hparse⟩ : ∃ accepted parsedMsg,
          Itch.parse (ofBytes buffer) buffer.length s.parsedMsg = (accepted,parsedMsg) := ⟨_,_,rfl⟩
      refine h.advances_local .parse (by simp)
        (t := { s with buffers := buffers, parsedMsg := parsedMsg, pushing := accepted }) ?_ ?_
      · simp [Benchmark.step,hbuffers,hpushing,hparse]
      · have hproducer : producerRank s.queue.producer ≤ 4 := by cases s.queue.producer <;> simp [producerRank]
        simp only [rank,hbuffers,List.length_cons,hpushing]
        cases accepted <;> simp only [cond_true,cond_false] <;> omega

/-- Once nothing is left anywhere the consumer sees the flag and leaves. -/
lemma Tracks.advances_close (h : Tracks capacity numMessages dispatch start all done [] s)
    (hdone : s.producerDone = true) (hcount : numMessages ≤ s.processed)
    (hidle : ∀ msg, s.consumer ≠ .processing msg) (hrunning : s.consumer ≠ .exited) :
    Advances capacity numMessages dispatch start all [] s := by
  obtain ⟨base,hholds⟩ := h.holds
  cases hpc : s.consumer with
  | condition =>
    refine h.advances_local .condition (by simp) (t := { s with consumer := .exited }) ?_ ?_
    · simp [Benchmark.step,hpc,hdone,hcount]
    · simp [rank,hpc,hdone,consumerRank]
  | popping =>
    have hknown := hholds.consumer
    cases hring : s.queue.consumer with
    | idle =>
      refine h.advances_queue .loadRead (e := .silent) (q := { s.queue with consumer := .loaded s.queue.readIndex })
        (by simp [State.enables,hpc]) (by simp [SPSCQueue.step,hring]) ?_
      rintro content' ⟨⟩
      simp [rank,State.observe,hdone,hpc,hring,consumerRank]
    | loaded r =>
      rw [hring] at hknown
      obtain rfl : r = s.queue.readIndex := hknown
      have hempty : s.queue.readIndex = s.queue.writeIndex := hholds.empty_iff.mpr rfl
      refine h.advances_queue .checkEmpty (e := .popEmpty) (q := { s.queue with consumer := .idle }) rfl
        (by simp [SPSCQueue.step,hring,hempty]) ?_
      rintro content' ⟨⟩
      simp [rank,State.observe,hdone,hpc,hring,consumerRank]
    | checked r =>
      rw [hring] at hknown
      exact absurd hknown.2 (by simp)
    | copied r item =>
      rw [hring] at hknown
      exact absurd hknown.2 (by simp)
  | processing msg => exact absurd hpc (hidle msg)
  | exited => exact absurd hpc hrunning

/-- From every state of a run in which all buffers parse, some schedule ends the loop. -/
theorem Tracks.exits (hcap : 2 ≤ capacity) (h : Tracks capacity numMessages dispatch start all done content s)
    (hreturns : (all.foldlM dispatch start).isSome) (hall : all.length = numMessages) :
    ∃ actions us t, run (Benchmark.step capacity numMessages dispatch) s actions = some (us,t) ∧
      t.consumer = .exited := by
  refine exists_run_of_rank (P := fun s => s.consumer = .exited)
    (I := fun n s => ∃ done content, Tracks capacity numMessages dispatch start all done content s ∧ rank s content = n)
    ?_ ⟨done,content,h,rfl⟩
  rintro n s ⟨done,content,h,rfl⟩ hrunning
  suffices hnext : Advances capacity numMessages dispatch start all content s by
    obtain ⟨a,s',done',content',hstep,htracks,hrank⟩ := hnext
    exact ⟨a,(),s',_,hstep,hrank,done',content',htracks,rfl⟩
  by_cases hidle : ∀ msg, s.consumer ≠ .processing msg
  · have hpopped : s.popped = [] := by
      cases hpc : s.consumer <;> simp_all [State.popped]
    have horder := congrArg List.length h.inOrder
    simp only [List.length_append,hpopped,List.length_nil] at horder
    have hprocessed := h.processed
    by_cases hcontent : content = []
    · subst hcontent
      cases hdone : s.producerDone with
      | false => exact h.advances_push hcap hdone
      | true =>
        obtain ⟨hbuffers,hpushing⟩ := h.finished hdone
        simp only [hbuffers,parsed,State.underPush,hpushing,Bool.false_eq_true,if_false,List.length_nil] at horder
        exact h.advances_close hdone (by omega) hidle hrunning
    · have hlength := List.length_pos_iff.mpr hcontent
      exact h.advances_pop hcontent hidle hrunning (by omega)
  · push Not at hidle
    obtain ⟨msg,hpc⟩ := hidle
    exact h.advances_process hreturns hpc

/-- At every point of every schedule: the consumer leaves only with every message processed once and
in order, and it still can leave exactly when all buffers parse. -/
theorem exit_reachable_iff (hcap : 2 ≤ capacity) {buffers : List (List UInt8)} {parsedMsg : InternalMessage}
    {data : ℕ → InternalMessage} {actions : List Action} {us : List Unit}
    (hreturns : ((parsed parsedMsg buffers).foldlM dispatch start).isSome)
    (hrun : run (Benchmark.step capacity buffers.length dispatch) (init buffers parsedMsg data start) actions =
      some (us,s)) :
    (s.consumer = .exited →
      (parsed parsedMsg buffers).foldlM dispatch start = some s.work ∧ s.processed = buffers.length) ∧
    ((∃ actions us t, run (Benchmark.step capacity buffers.length dispatch) s actions = some (us,t) ∧
        t.consumer = .exited) ↔ (parsed parsedMsg buffers).length = buffers.length) := by
  obtain ⟨done,content,h⟩ := tracks_of_run hcap hrun
  have hle := length_parsed_le parsedMsg buffers
  refine ⟨fun hexit => ?_,?_,h.exits hcap hreturns⟩
  · obtain ⟨rfl,hall⟩ := h.done_eq_all hexit hle
    exact ⟨h.worked,h.processed.symm.trans hall⟩
  · rintro ⟨actions',us',t,hrest,hexit⟩
    obtain ⟨done',content',ht⟩ := tracks_of_run hcap (run_append_eq_some.mpr ⟨s,us,us',hrun,hrest,rfl⟩)
    exact (ht.done_eq_all hexit hle).2

/-- After one buffer that does not parse the consumer spins on the empty ring and can never leave. -/
theorem exit_reachable_iff_unparsed :
    let next := Benchmark.step 4 1 pipelineDispatch
    ∃ s, run next (init [[0]] ⟨0,0,0,0,.buy⟩ (fun _ => ⟨0,0,0,0,.buy⟩) (LimitOrderBook.init 2 100))
        [.parse,.finish,.condition,.queue .loadRead,.queue .checkEmpty] = some (List.replicate 5 (),s) ∧
      ¬ ∃ actions us t, run next s actions = some (us,t) ∧ t.consumer = .exited := by
  intro next
  refine run_exists_of_answers (by decide +kernel) fun s hrun hexit => ?_
  have hreturns : ((parsed ⟨0,0,0,0,.buy⟩ [[0]]).foldlM pipelineDispatch (LimitOrderBook.init 2 100)).isSome := by
    decide +kernel
  have hreach := exit_reachable_iff (by decide : 2 ≤ 4) hreturns hrun
  exact absurd (hreach.2.mp hexit) (by decide +kernel)

lemma length_generate (executeBelow cancelBelow i : ℕ) (g : Generator.State) (draws : List Draw) :
    (generate executeBelow cancelBelow i g draws).1.length = draws.length := by
  induction draws generalizing i g with
  | nil => rfl
  | cons draw draws ih =>
    rw [generate]
    exact congrArg Nat.succ (ih (i + 1) _)

/-- The ITCH-to-LOB benchmark on its own data: whatever is drawn and however the threads are
scheduled it can always come to its end, and there the book holds exactly the generator's active
orders with the shares they have left. -/
theorem itchToLob_completes (capacity maxOrders maxPrice : ℕ) (hcap : 2 ≤ capacity) (hmax : 1 ≤ maxOrders)
    (hprice : 15100 ≤ maxPrice) (draws : List Draw) (hroom : draws.length ≤ maxOrders)
    (hids : draws.length + 1 < 2 ^ 64) (parsedMsg : InternalMessage) (data : ℕ → InternalMessage)
    (actions : List Action) (us : List Unit) (s : State LimitOrderBook) :
    let (messages,g) := generateItchToLob draws
    let next := Benchmark.step capacity draws.length pipelineDispatch
    run next (init (messages.map Message.encode) parsedMsg data (LimitOrderBook.init maxOrders maxPrice)) actions =
      some (us,s) →
    (∃ actions us t, run next s actions = some (us,t) ∧ t.consumer = .exited) ∧
    (s.consumer = .exited → s.processed = draws.length ∧
      ∀ id q, (∃ x, s.work.getOrder id = some (some x) ∧ (s.work.orderPool x).quantity = q) ↔
        ∃ ao ∈ g.activeOrders, ao.id = id ∧ ao.remainingShares.toUInt64 = q) := by
  have hvalid := generated_stream_valid 70 90 maxOrders maxPrice hmax hprice draws hroom hids parsedMsg
  have hmessages := length_generate 70 90 0 Generator.init draws
  rw [generateItchToLob]
  generalize generate 70 90 0 Generator.init draws = outcome at hvalid hmessages ⊢
  obtain ⟨messages,g⟩ := outcome
  obtain ⟨hlength,_,lob,hconsume,horders⟩ := hvalid
  dsimp only
  intro hrun
  have hbuffers : (messages.map Message.encode).length = draws.length := by rw [List.length_map,hmessages]
  have hreturns : ((parsed parsedMsg (messages.map Message.encode)).foldlM pipelineDispatch
      (LimitOrderBook.init maxOrders maxPrice)).isSome := by
    rw [consume] at hconsume
    rw [hconsume]
    rfl
  rw [← hbuffers] at hrun ⊢
  obtain ⟨hexit,hreach⟩ := exit_reachable_iff hcap hreturns hrun
  refine ⟨hreach.mpr (by rw [hlength,hbuffers]),fun hpc => ?_⟩
  obtain ⟨hwork,hprocessed⟩ := hexit hpc
  obtain rfl := Option.some.inj (hconsume.symm.trans hwork)
  exact ⟨hprocessed,horders⟩

/-- One add order: the producer pushes it and ends, the consumer books it and leaves. -/
theorem itchToLob_completes_one_add :
    let draws : List Draw := [⟨0,0,⟨List.replicate 8 0,rfl⟩⟩]
    let (messages,_) := generateItchToLob draws
    let next := Benchmark.step 4 draws.length pipelineDispatch
    let push : List Action := [.parse,.queue (.loadWrite ⟨'A'.toUInt8,1,15000,100,.buy⟩),.queue .checkFull,
      .queue .writeData,.queue .storeWrite,.finish]
    let pop : List Action := [.condition,.queue .loadRead,.queue .checkEmpty,.queue .readData,.queue .storeRead,
      .process,.condition]
    ∃ s, run next (init (messages.map Message.encode) ⟨0,0,0,0,.buy⟩ (fun _ => ⟨0,0,0,0,.buy⟩)
        (LimitOrderBook.init 4 15100)) (push ++ pop) = some (List.replicate 13 (),s) ∧
      ∃ x, s.work.getOrder 1 = some (some x) ∧ (s.work.orderPool x).quantity = 100 := by
  intro draws
  refine run_exists_of_answers (by decide +kernel) fun s hrun => ?_
  have hcompletes := itchToLob_completes 4 4 15100 (by decide) (by decide) (by decide) draws (by decide) (by decide)
    ⟨0,0,0,0,.buy⟩ (fun _ => ⟨0,0,0,0,.buy⟩) _ _ s hrun
  have hexit : s.consumer = .exited :=
    of_run_all (P := fun s : State LimitOrderBook => s.consumer = .exited) (by decide +kernel) hrun
  exact ((hcompletes.2 hexit).2 1 100).mpr (by decide +kernel)

end TickToTrade.Benchmark
