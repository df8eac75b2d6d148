import TickToTrade.Queue.Progress

/-! The latency benchmark of the ring, with the ring's memory orders. The producer stamps each tick and
spins on `push`; the consumer spins on `pop`, and behind the warm-up it subtracts the stamp of what it
has popped from its own clock. The clocks are what the two threads read from the TSC. -/
namespace TickToTrade.LatencyBenchmark
open SPSCQueue SPSCQueue.Weak ReleaseAcquire

/-- The payload; the price by the bits of its double. -/
structure MarketDataTick where
  symbol : List UInt8
  price : UInt64
  size : UInt32
  timestamp : UInt64
  creationTsc : UInt64
  deriving DecidableEq, Repr

/-- `pushing` says that the producer is inside the loop around `push`, `measuring` that the consumer has
popped a tick to measure. -/
structure State where
  ring : Weak.State MarketDataTick
  tick : MarketDataTick
  pushing : Bool
  produced : ℕ
  consumed : ℕ
  measuring : Option MarketDataTick
  latencies : List UInt64

def init (data : ℕ → MarketDataTick) (symbol : List UInt8) (creationTsc : UInt64) : State where
  ring := Weak.init data
  tick := ⟨symbol,0x4062C00000000000,100,0,creationTsc⟩
  pushing := false
  produced := 0
  consumed := 0
  measuring := none
  latencies := []

inductive Action
  | stamp (tsc : UInt64)
  | ring (a : Weak.Action MarketDataTick)
  | measure (tsc : UInt64)

/-- What the threads have read from the TSC. -/
inductive Entry
  | stamped (tsc : UInt64)
  | silent
  | measured (tsc : UInt64)

/-- A push starts with the stamped tick, a pop where the consumer's loops call it. -/
def State.enables (total : ℕ) (s : State) : Weak.Action MarketDataTick → Bool
  | .loadWrite item _ => s.pushing ∧ item = s.tick
  | .loadRead _ => s.consumed < total ∧ s.measuring = none
  | _ => true

def State.observe (warmup : ℕ) (s : State) : Event MarketDataTick → State
  | .pushed _ => { s with pushing := false, produced := s.produced + 1 }
  | .popped item =>
    if s.consumed < warmup then { s with consumed := s.consumed + 1 } else { s with measuring := some item }
  | _ => s

/-- One step of either thread. -/
def step (capacity warmup measure : ℕ) (s : State) : Action → Option (Entry × State)
  | .stamp tsc =>
    if s.produced < warmup + measure ∧ s.pushing = false then
      some (.stamped tsc,{ s with tick := { s.tick with creationTsc := tsc }, pushing := true })
    else none
  | .ring a =>
    if s.enables (warmup + measure) a then do
      let (e,ring) ← Weak.step capacity s.ring a
      some (.silent,({ s with ring := ring } : State).observe warmup e)
    else none
  | .measure tsc =>
    match s.measuring with
    | some tick => some (.measured tsc,{ s with
        latencies := s.latencies ++ [tsc - tick.creationTsc], consumed := s.consumed + 1, measuring := none })
    | none => none

def stamps (entries : List Entry) : List UInt64 :=
  entries.filterMap fun
    | .stamped tsc => some tsc
    | _ => none

def readings (entries : List Entry) : List UInt64 :=
  entries.filterMap fun
    | .measured tsc => some tsc
    | _ => none

lemma stamps_append (entries entries' : List Entry) : stamps (entries ++ entries') = stamps entries ++ stamps entries' :=
  List.filterMap_append

lemma readings_append (entries entries' : List Entry) :
    readings (entries ++ entries') = readings entries ++ readings entries' := List.filterMap_append

/-- A push under way is a push of the stamped tick. -/
def Pushing (s : State) : ProducerPc MarketDataTick → Prop
  | .idle => True
  | .loaded item _ => s.pushing = true ∧ item = s.tick
  | .checked item _ => s.pushing = true ∧ item = s.tick
  | .written item _ => s.pushing = true ∧ item = s.tick

/-- A pop is under way only where the consumer's loops call it. -/
def Popping (total : ℕ) (s : State) : ConsumerPc MarketDataTick → Prop
  | .idle => True
  | _ => s.consumed < total ∧ s.measuring = none

/-- The tick being pushed. -/
def State.underPush (s : State) : List MarketDataTick := if s.pushing then [s.tick] else []

/-- What the producer has stamped is what it has pushed and the tick that it is pushing. -/
structure Produces (total : ℕ) (out : List MarketDataTick) (clock : List UInt64) (s : State) : Prop where
  count : s.produced = out.length
  stamped : (out ++ s.underPush).map MarketDataTick.creationTsc = clock
  le : clock.length ≤ total
  pushing : Pushing s s.ring.producer

/-- What the consumer has measured is what it has popped behind the warm-up, but for a tick that it has
still to measure. -/
structure Consumes (warmup total : ℕ) (taken : List MarketDataTick) (clock : List UInt64) (s : State) : Prop where
  count : taken.length = s.consumed + s.measuring.toList.length
  last : ∀ tick, s.measuring = some tick → warmup ≤ s.consumed ∧ ∃ before, taken = before ++ [tick]
  le : taken.length ≤ total
  read : clock.length = s.consumed - warmup
  latencies : s.latencies = List.zipWith (· - ·) clock ((taken.map MarketDataTick.creationTsc).drop warmup)
  popping : Popping total s s.ring.consumer

structure Tracks (capacity warmup measure : ℕ) (data : ℕ → MarketDataTick) (events : List (Event MarketDataTick))
    (entries : List Entry) (s : State) : Prop where
  follows : Follows capacity data events s.ring
  producer : Produces (warmup + measure) (pushedItems events) (stamps entries) s
  consumer : Consumes warmup (warmup + measure) (poppedItems events) (readings entries) s

variable {capacity warmup measure total : ℕ} {data : ℕ → MarketDataTick} {events : List (Event MarketDataTick)}
  {entries : List Entry} {out taken : List MarketDataTick} {clock : List UInt64} {s s' : State} {ring : Weak.State MarketDataTick}

lemma tracks_init (hcap : 0 < capacity) (data : ℕ → MarketDataTick) (symbol : List UInt8) (creationTsc : UInt64) :
    Tracks capacity warmup measure data [] [] (init data symbol creationTsc) where
  follows := follows_init hcap data
  producer := ⟨rfl,rfl,Nat.zero_le _,trivial⟩
  consumer := ⟨rfl,by simp [init],Nat.zero_le _,(Nat.zero_sub _).symm,by simp [init,readings],trivial⟩

variable (warmup) in
/-- What a step of the ring means to the two threads. -/
lemma enabled_step {a : Weak.Action MarketDataTick} {e : Event MarketDataTick}
    (hpush : Pushing s s.ring.producer) (hpop : Popping total s s.ring.consumer)
    (ha : s.enables total a = true) (hstep : Weak.step capacity s.ring a = some (e,ring)) :
    Pushing (({ s with ring := ring } : State).observe warmup e) ring.producer ∧
    Popping total (({ s with ring := ring } : State).observe warmup e) ring.consumer ∧
    (∀ item, e = .pushed item → s.pushing = true ∧ item = s.tick) ∧
    (∀ item, e = .popped item → s.consumed < total ∧ s.measuring = none) := by
  cases step_cases hstep with
  | @loadWrite item i w memory hpc hload =>
    have hmsg : s.pushing = true ∧ item = s.tick := by simpa [State.enables] using ha
    exact ⟨hmsg,hpop,by simp,by simp⟩
  | full hpc hload hfull => exact ⟨trivial,hpop,by simp,by simp⟩
  | room hpc hload hroom =>
    rw [hpc] at hpush
    exact ⟨hpush,hpop,by simp,by simp⟩
  | writeData hpc hwrite =>
    rw [hpc] at hpush
    exact ⟨hpush,hpop,by simp,by simp⟩
  | @storeWrite item w memory hpc hstore =>
    rw [hpc] at hpush
    refine ⟨trivial,?_,?_,by simp⟩
    · revert hpop
      cases s.ring.consumer <;> exact id
    · intro x hx
      obtain rfl : item = x := by simpa using hx
      exact hpush
  | loadRead hpc hload =>
    have hloop : s.consumed < total ∧ s.measuring = none := by simpa [State.enables] using ha
    exact ⟨hpush,hloop,by simp,by simp⟩
  | empty hpc hload hempty => exact ⟨hpush,trivial,by simp,by simp⟩
  | items hpc hload hitems =>
    rw [hpc] at hpop
    exact ⟨hpush,hpop,by simp,by simp⟩
  | readData hpc hread =>
    rw [hpc] at hpop
    exact ⟨hpush,hpop,by simp,by simp⟩
  | storeRead hpc hstore =>
    rw [hpc] at hpop
    refine ⟨?_,trivial,by simp,fun _ _ => hpop⟩
    revert hpush
    simp only [State.observe]
    split <;> cases s.ring.producer <;> exact id

lemma zipWith_append_of_le {α β γ : Type*} {f : α → β → γ} {as : List α} {bs : List β} (h : as.length ≤ bs.length)
    (rest : List β) : List.zipWith f as (bs ++ rest) = List.zipWith f as bs := by
  induction as generalizing bs with
  | nil => rfl
  | cons a as ih =>
    cases bs with
    | nil => simp at h
    | cons b bs => simp [ih (Nat.le_of_succ_le_succ h)]

/-- The consumer's locals do not matter to the producer. -/
lemma Produces.frame (h : Produces total out clock s) (hpush : Pushing s ring.producer) (consumed : ℕ)
    (measuring : Option MarketDataTick) (latencies : List UInt64) : Produces total out clock
      { s with ring := ring, consumed := consumed, measuring := measuring, latencies := latencies } := by
  refine ⟨h.count,h.stamped,h.le,?_⟩
  revert hpush
  cases ring.producer <;> exact id

/-- Nor the producer's to the consumer. -/
lemma Consumes.frame (h : Consumes warmup total taken clock s) (hpop : Popping total s ring.consumer) (tick : MarketDataTick)
    (pushing : Bool) (produced : ℕ) : Consumes warmup total taken clock
      { s with ring := ring, tick := tick, pushing := pushing, produced := produced } := by
  refine ⟨h.count,h.last,h.le,h.read,h.latencies,?_⟩
  revert hpop
  cases ring.consumer <;> exact id

lemma Produces.stamp (h : Produces total out clock s) (hready : s.produced < total) (hidle : s.pushing = false)
    (tsc : UInt64) : Produces total out (clock ++ [tsc])
      { s with tick := { s.tick with creationTsc := tsc }, pushing := true } := by
  have hstamped : out.map MarketDataTick.creationTsc = clock := by simpa [State.underPush,hidle] using h.stamped
  refine ⟨h.count,?_,?_,?_⟩
  · simp [State.underPush,hstamped]
  · rw [← hstamped,List.length_append,List.length_map,← h.count]
    exact hready
  · have hpush := h.pushing
    revert hpush
    cases s.ring.producer <;> simp [Pushing,hidle]

/-- The tick that is pushed is the one that was stamped last. -/
lemma Produces.push (h : Produces total out clock s) (hpushing : s.pushing = true) (hidle : ring.producer = .idle) :
    Produces total (out ++ [s.tick]) clock { s with ring := ring, pushing := false, produced := s.produced + 1 } := by
  refine ⟨?_,?_,h.le,by rw [hidle]; trivial⟩
  · simp [h.count]
  · rw [← h.stamped]
    simp [State.underPush,hpushing]

/-- A tick of the warm-up only counts, every later one is measured. -/
lemma Consumes.pop (h : Consumes warmup total taken clock s) (hloop : s.consumed < total ∧ s.measuring = none)
    (tick : MarketDataTick) (hidle : ring.consumer = .idle) :
    Consumes warmup total (taken ++ [tick]) clock (({ s with ring := ring } : State).observe warmup (.popped tick)) := by
  have hcount : taken.length = s.consumed := by simpa [hloop.2] using h.count
  have hread := h.read
  simp only [State.observe]
  split
  · rename_i hwarm
    replace hwarm : s.consumed < warmup := hwarm
    have hnone : clock = [] := List.eq_nil_of_length_eq_zero (by omega)
    refine ⟨?_,by simp [hloop.2],?_,?_,?_,by rw [hidle]; trivial⟩
    · simp [hcount,hloop.2]
    · simp only [List.length_append,List.length_singleton]
      omega
    · change clock.length = s.consumed + 1 - warmup
      omega
    · rw [hnone,List.zipWith_nil_left]
      simpa [hnone] using h.latencies
  · rename_i hlate
    replace hlate : ¬ s.consumed < warmup := hlate
    refine ⟨?_,?_,?_,hread,?_,by rw [hidle]; trivial⟩
    · simp [hcount]
    · rintro _ ⟨⟩
      exact ⟨Nat.le_of_not_lt hlate,taken,rfl⟩
    · simp only [List.length_append,List.length_singleton]
      omega
    · rw [List.map_append,List.drop_append_of_le_length (by rw [List.length_map]; omega),
        zipWith_append_of_le (by rw [List.length_drop,List.length_map]; omega)]
      exact h.latencies

/-- The reading of the clock goes with the tick that was popped last. -/
lemma Consumes.takeReading (h : Consumes warmup total taken clock s) {tick : MarketDataTick} (htick : s.measuring = some tick)
    (tsc : UInt64) : Consumes warmup total taken (clock ++ [tsc])
      { s with latencies := s.latencies ++ [tsc - tick.creationTsc], consumed := s.consumed + 1, measuring := none } := by
  obtain ⟨hlate,before,rfl⟩ := h.last tick htick
  have hcount := h.count
  have hread := h.read
  simp only [htick,Option.toList_some,List.length_append,List.length_singleton] at hcount
  refine ⟨?_,by simp,h.le,?_,?_,?_⟩
  · simp only [List.length_append,List.length_singleton,Option.toList_none,List.length_nil]
    omega
  · simp only [List.length_append,List.length_singleton]
    omega
  · have hlatencies := h.latencies
    have hdrop : ((before ++ [tick]).map MarketDataTick.creationTsc).drop warmup =
        (before.map MarketDataTick.creationTsc).drop warmup ++ [tick.creationTsc] := by
      rw [List.map_append,List.drop_append_of_le_length (by rw [List.length_map]; omega)]
      rfl
    have hlength : clock.length = ((before.map MarketDataTick.creationTsc).drop warmup).length := by
      rw [List.length_drop,List.length_map]
      omega
    rw [hdrop,zipWith_append_of_le hlength.le] at hlatencies
    rw [hdrop,List.zipWith_append hlength,← hlatencies]
    rfl
  · have hpop := h.popping
    revert hpop
    cases s.ring.consumer <;> simp [Popping,htick]

lemma pushedItems_concat {e : Event MarketDataTick} (he : pushedItems [e] = []) (events : List (Event MarketDataTick)) :
    pushedItems (events ++ [e]) = pushedItems events := by rw [pushedItems_append,he,List.append_nil]

lemma poppedItems_concat {e : Event MarketDataTick} (he : poppedItems [e] = []) (events : List (Event MarketDataTick)) :
    poppedItems (events ++ [e]) = poppedItems events := by rw [poppedItems_append,he,List.append_nil]

/-- A step of the ring moves a tick along or leaves all of them where they are. -/
theorem Tracks.stepRing (h : Tracks capacity warmup measure data events entries s) {a : Weak.Action MarketDataTick}
    {e : Event MarketDataTick} (ha : s.enables (warmup + measure) a = true)
    (hstep : Weak.step capacity s.ring a = some (e,ring)) :
    Tracks capacity warmup measure data (events ++ [e]) (entries ++ [.silent])
      (({ s with ring := ring } : State).observe warmup e) := by
  obtain ⟨hpush,hpop,hpushed,hpopped⟩ := enabled_step warmup h.producer.pushing h.consumer.popping ha hstep
  have hfollows := h.follows.step hstep
  have hp := h.producer
  have hc := h.consumer
  have hstamps : stamps (entries ++ [.silent]) = stamps entries := by rw [stamps_append]; exact List.append_nil _
  have hreadings : readings (entries ++ [.silent]) = readings entries := by rw [readings_append]; exact List.append_nil _
  cases e with
  | pushed item =>
    obtain ⟨hpushing,rfl⟩ := hpushed item rfl
    have hidle : ring.producer = .idle := by
      cases step_cases hstep
      rfl
    refine ⟨hfollows,?_,?_⟩
    · rw [pushedItems_append,hstamps]
      exact hp.push hpushing hidle
    · rw [poppedItems_concat rfl,hreadings]
      exact hc.frame hpop s.tick false (s.produced + 1)
  | popped item =>
    have hidle : ring.consumer = .idle := by
      cases step_cases hstep
      rfl
    refine ⟨?_,?_,?_⟩
    · simp only [State.observe]
      split <;> exact hfollows
    · rw [pushedItems_concat rfl,hstamps]
      simp only [State.observe] at hpush ⊢
      split at hpush
      · rename_i hwarm
        rw [if_pos hwarm]
        exact hp.frame hpush _ _ _
      · rename_i hlate
        rw [if_neg hlate]
        exact hp.frame hpush _ _ _
    · rw [poppedItems_append,hreadings]
      exact hc.pop (hpopped item rfl) item hidle
  | _ =>
    refine ⟨hfollows,?_,?_⟩
    · rw [pushedItems_concat rfl,hstamps]
      exact hp.frame hpush _ _ _
    · rw [poppedItems_concat rfl,hreadings]
      exact hc.frame hpop _ _ _

theorem Tracks.step (h : Tracks capacity warmup measure data events entries s) {a : Action} {entry : Entry}
    (hstep : LatencyBenchmark.step capacity warmup measure s a = some (entry,s')) :
    ∃ events', Tracks capacity warmup measure data events' (entries ++ [entry]) s' := by
  cases a with
  | stamp tsc =>
    simp only [LatencyBenchmark.step] at hstep
    split at hstep
    · rename_i hready
      obtain ⟨rfl,rfl⟩ := Prod.mk.inj (Option.some.inj hstep)
      refine ⟨events,h.follows,?_,?_⟩
      · rw [stamps_append]
        exact h.producer.stamp hready.1 hready.2 tsc
      · rw [readings_append,show readings [.stamped tsc] = [] from rfl,List.append_nil]
        exact h.consumer.frame h.consumer.popping _ _ _
    · contradiction
  | ring a =>
    simp only [LatencyBenchmark.step] at hstep
    split at hstep
    · rename_i ha
      obtain ⟨⟨e,ring⟩,hring,hstep⟩ := Option.bind_eq_some_iff.mp hstep
      obtain ⟨rfl,rfl⟩ := Prod.mk.inj (Option.some.inj hstep)
      exact ⟨_,h.stepRing ha hring⟩
    · contradiction
  | measure tsc =>
    simp only [LatencyBenchmark.step] at hstep
    split at hstep
    · rename_i tick htick
      obtain ⟨rfl,rfl⟩ := Prod.mk.inj (Option.some.inj hstep)
      refine ⟨events,h.follows,?_,?_⟩
      · rw [stamps_append,show stamps [.measured tsc] = [] from rfl,List.append_nil]
        exact h.producer.frame h.producer.pushing _ _ _
      · rw [readings_append]
        exact h.consumer.takeReading htick tsc
    · contradiction

theorem tracks_of_run (hcap : 0 < capacity) {symbol : List UInt8} {creationTsc : UInt64} {actions : List Action}
    (hrun : run (LatencyBenchmark.step capacity warmup measure) (init data symbol creationTsc) actions = some (entries,s)) :
    ∃ events, Tracks capacity warmup measure data events entries s :=
  run_history_invariant (I := fun entries s => ∃ events, Tracks capacity warmup measure data events entries s)
    (fun _ _ _ _ _ ⟨_,h⟩ hstep => h.step hstep) ⟨[],tracks_init hcap data symbol creationTsc⟩ hrun

/-- The stamps that the measured ticks carry are those behind the warm-up. -/
lemma Tracks.latencies_eq (hcap : 2 ≤ capacity) (h : Tracks capacity warmup measure data events entries s) :
    s.latencies = List.zipWith (· - ·) (readings entries) ((stamps entries).drop warmup) := by
  obtain ⟨rest,hrest⟩ := h.follows.items_in_order hcap
  have hcount := h.consumer.count
  have hread := h.consumer.read
  rw [h.consumer.latencies,← h.producer.stamped,← hrest,List.append_assoc,List.map_append]
  by_cases hwarm : warmup ≤ (poppedItems events).length
  · rw [List.drop_append_of_le_length (by rwa [List.length_map]),
      zipWith_append_of_le (by rw [List.length_drop,List.length_map]; omega)]
  · have hnone : readings entries = [] := List.eq_nil_of_length_eq_zero (by omega)
    rw [hnone,List.zipWith_nil_left,List.zipWith_nil_left]

def State.Finished (total : ℕ) (s : State) : Prop := s.produced = total ∧ s.consumed = total

def rank (total : ℕ) (s : State) : ℕ :=
  6 * (total - s.produced) + (if s.pushing then pushRank s.ring.producer else 5) +
    (6 * (total - s.consumed) + if s.measuring.isSome then 0 else popRank s.ring.consumer)

/-- Some step brings the end nearer. -/
def Advances (capacity warmup measure : ℕ) (s : State) : Prop :=
  ∃ a entry s', LatencyBenchmark.step capacity warmup measure s a = some (entry,s') ∧
    rank (warmup + measure) s' < rank (warmup + measure) s

lemma step_stamp (hloop : s.produced < warmup + measure) (hidle : s.pushing = false) (tsc : UInt64) :
    LatencyBenchmark.step capacity warmup measure s (.stamp tsc) =
      some (.stamped tsc,{ s with tick := { s.tick with creationTsc := tsc }, pushing := true }) := if_pos ⟨hloop,hidle⟩

lemma step_ring {a : Weak.Action MarketDataTick} {e : Event MarketDataTick} (ha : s.enables (warmup + measure) a = true)
    (hstep : Weak.step capacity s.ring a = some (e,ring)) : LatencyBenchmark.step capacity warmup measure s (.ring a) =
      some (.silent,({ s with ring := ring } : State).observe warmup e) := by
  simp only [LatencyBenchmark.step]
  rw [if_pos ha,hstep]
  rfl

lemma step_measure {tick : MarketDataTick} (htick : s.measuring = some tick) (tsc : UInt64) :
    LatencyBenchmark.step capacity warmup measure s (.measure tsc) = some (.measured tsc,{ s with
      latencies := s.latencies ++ [tsc - tick.creationTsc], consumed := s.consumed + 1, measuring := none }) := by
  simp only [LatencyBenchmark.step,htick]

/-- While the ring holds a tick, the consumer gets to it. -/
lemma Tracks.advances_pop (h : Tracks capacity warmup measure data events entries s) (hitems : s.ring.pops < s.ring.pushes)
    (hloop : s.consumed < warmup + measure ∧ s.measuring = none) : Advances capacity warmup measure s := by
  obtain ⟨a,e,ring,hstep,hloadWrite,hproducer,he⟩ := h.follows.ordered.pop_advances hitems
  have ha : s.enables (warmup + measure) a = true := by
    cases a <;> simp_all [State.enables]
  refine ⟨.ring a,.silent,_,step_ring ha hstep,?_⟩
  have hpos := popRank_pos s.ring.consumer
  rcases he with ⟨item,rfl⟩ | ⟨rfl,hrank⟩
  · have hidle : ring.consumer = .idle := by
      cases step_cases hstep
      rfl
    simp only [State.observe]
    split
    · simp only [rank,hproducer,hloop.2,hidle,popRank,Option.isSome_none,Bool.false_eq_true,if_false]
      omega
    · simp only [rank,hproducer,hloop.2,Option.isSome_some,Option.isSome_none,if_true,Bool.false_eq_true,if_false]
      omega
  · simp only [State.observe,rank,hproducer,hloop.2,Option.isSome_none,Bool.false_eq_true,if_false]
    omega

/-- While the ring has room, the producer gets its tick in. -/
lemma Tracks.advances_push (h : Tracks capacity warmup measure data events entries s)
    (hroom : s.ring.pushes + 1 < s.ring.pops + capacity) (hloop : s.produced < warmup + measure) :
    Advances capacity warmup measure s := by
  cases hpushing : s.pushing with
  | false =>
    refine ⟨.stamp 0,.stamped 0,_,step_stamp hloop hpushing 0,?_⟩
    have hidle : pushRank s.ring.producer ≤ 4 := by cases s.ring.producer <;> simp [pushRank]
    simp only [rank,hpushing,if_true,Bool.false_eq_true,if_false]
    omega
  | true =>
    obtain ⟨a,e,ring,hstep,hloadRead,hloadWrite,hconsumer,he⟩ := h.follows.ordered.push_advances hroom s.tick
    have ha : s.enables (warmup + measure) a = true := by
      cases a <;> simp_all [State.enables]
    refine ⟨.ring a,.silent,_,step_ring ha hstep,?_⟩
    have hpos := pushRank_pos s.ring.producer
    rcases he with ⟨item,rfl⟩ | ⟨rfl,hrank⟩
    · simp only [State.observe,rank,hconsumer,hpushing,if_true,Bool.false_eq_true,if_false]
      omega
    · simp only [State.observe,rank,hconsumer,hpushing,if_true]
      omega

/-- From every state that is reached, some schedule lets both threads finish. -/
theorem Tracks.finishes (hcap : 2 ≤ capacity) (h : Tracks capacity warmup measure data events entries s) :
    ∃ actions entries' t, run (LatencyBenchmark.step capacity warmup measure) s actions = some (entries',t) ∧
      t.Finished (warmup + measure) := by
  refine exists_run_of_rank (P := State.Finished (warmup + measure))
    (I := fun n s => (∃ events entries, Tracks capacity warmup measure data events entries s) ∧
      rank (warmup + measure) s = n) ?_ ⟨⟨events,entries,h⟩,rfl⟩
  rintro n s ⟨⟨events,entries,h⟩,rfl⟩ hrunning
  suffices hnext : Advances capacity warmup measure s by
    obtain ⟨a,entry,s',hstep,hrank⟩ := hnext
    obtain ⟨events',h'⟩ := h.step hstep
    exact ⟨a,entry,s',_,hstep,hrank,⟨events',_,h'⟩,rfl⟩
  have hcount := h.consumer.count
  have hle := h.consumer.le
  have hproduced := h.producer.count
  have hstamped := congrArg List.length h.producer.stamped
  rw [List.length_map,List.length_append] at hstamped
  have htotal := h.producer.le
  have hpushes := h.follows.pushes
  have hpops := h.follows.pops
  cases hmeasuring : s.measuring with
  | some tick =>
    refine ⟨.measure 0,.measured 0,_,step_measure hmeasuring 0,?_⟩
    rw [hmeasuring,Option.toList_some,List.length_singleton] at hcount
    have hidle : popRank s.ring.consumer ≤ 4 := by cases s.ring.consumer <;> simp [popRank]
    simp only [rank,hmeasuring,Option.isSome_some,Option.isSome_none,if_true,Bool.false_eq_true,if_false]
    omega
  | none =>
    rw [hmeasuring,Option.toList_none,List.length_nil] at hcount
    have hordered := h.follows.ordered
    have hitems : s.ring.pops ≤ s.ring.pushes := hordered.items.trans hordered.seenPushes_le
    by_cases hpop : s.ring.pops < s.ring.pushes
    · exact h.advances_pop hpop ⟨by omega,hmeasuring⟩
    · refine h.advances_push (by omega) ?_
      unfold State.Finished at hrunning
      omega

/-- Whatever stores the loads return and however the threads are scheduled: no access to a slot of
the ring is a data race; every latency is the consumer's reading for a tick behind the warm-up less
the producer's reading for the same tick; both threads can always finish; and when they have, there
is a latency for each measured tick. -/
theorem latencies_of_run (capacity warmup measure : ℕ) (hcap : 2 ≤ capacity) (data : ℕ → MarketDataTick)
    (symbol : List UInt8) (creationTsc : UInt64) (actions : List Action) (entries : List Entry) (s : State)
    (hrun : run (LatencyBenchmark.step capacity warmup measure) (init data symbol creationTsc) actions = some (entries,s)) :
    ((∀ item w, s.ring.producer = .checked item w → (Weak.step capacity s.ring .writeData).isSome) ∧
      ∀ r, s.ring.consumer = .checked r → (Weak.step capacity s.ring .readData).isSome) ∧
    s.latencies = List.zipWith (· - ·) (readings entries) ((stamps entries).drop warmup) ∧
    (∃ actions' entries' t, run (LatencyBenchmark.step capacity warmup measure) s actions' = some (entries',t) ∧
      t.Finished (warmup + measure)) ∧
    (s.Finished (warmup + measure) → s.latencies.length = measure) := by
  obtain ⟨events,h⟩ := tracks_of_run (by omega : 0 < capacity) hrun
  have hordered := h.follows.ordered
  have hlatencies := h.latencies_eq hcap
  refine ⟨⟨fun item w hpc => ?_,fun r hpc => ?_⟩,hlatencies,h.finishes hcap,fun hfinished => ?_⟩
  · obtain ⟨memory,hwrite⟩ := Option.isSome_iff_exists.mp (hordered.write_isSome hpc)
    simp [Weak.step,stepWith,hpc,hwrite]
  · obtain ⟨⟨item,memory⟩,hread⟩ := Option.isSome_iff_exists.mp (hordered.read_isSome hpc)
    simp [Weak.step,stepWith,hpc,hread]
  · have hread := h.consumer.read
    have hproduced := h.producer.count
    have hstamped := congrArg List.length h.producer.stamped
    rw [List.length_map,List.length_append] at hstamped
    unfold State.Finished at hfinished
    rw [hlatencies,List.length_zipWith,List.length_drop]
    omega

/-- One tick for the warm-up and one that is measured. -/
theorem latencies_of_run_one_measured :
    let tick (tsc : UInt64) : MarketDataTick := ⟨[],0x4062C00000000000,100,0,tsc⟩
    ∃ s, run (LatencyBenchmark.step 2 1 1) (init (fun _ => tick 0) [] 0)
        [.stamp 10,.ring (.loadWrite (tick 10) 0),.ring (.checkFull 0),.ring .writeData,.ring .storeWrite,
          .ring (.loadRead 0),.ring (.checkEmpty 1),.ring .readData,.ring .storeRead,
          .stamp 20,.ring (.loadWrite (tick 20) 1),.ring (.checkFull 1),.ring .writeData,.ring .storeWrite,
          .ring (.loadRead 1),.ring (.checkEmpty 2),.ring .readData,.ring .storeRead,.measure 27] =
        some ([.stamped 10] ++ List.replicate 8 .silent ++ [.stamped 20] ++ List.replicate 8 .silent ++ [.measured 27],s) ∧
      s.latencies = [7] :=
  run_exists_of_answers rfl fun s hs => (latencies_of_run 2 1 1 (by decide) _ _ _ _ _ s hs).2.1

end TickToTrade.LatencyBenchmark
