import TickToTrade.Queue.Model
import TickToTrade.Library.ProbeLoop

/-! The ring refines the sequential queue. A push takes effect at its store of the write index, a
pop at its store of the read index, a refused call at its read of the other side's index; each of
these points lies inside its call, so the order of events is a linearization. -/
namespace TickToTrade.SPSCQueue
open Probing

variable {T : Type*}

/-- What the producer knows at each point of `push`, whatever the consumer does meanwhile. -/
def ProducerPc.Holds (capacity : ℕ) (s : State T) (queue : List T) : ProducerPc T → Prop
  | .idle => True
  | .loaded _ w => w = s.writeIndex
  | .checked _ w => w = s.writeIndex ∧ queue.length + 1 < capacity
  | .written item w => w = s.writeIndex ∧ queue.length + 1 < capacity ∧ s.data w = item

/-- What the consumer knows at each point of `pop`. -/
def ConsumerPc.Holds (s : State T) (queue : List T) : ConsumerPc T → Prop
  | .idle => True
  | .loaded r => r = s.readIndex
  | .checked r => r = s.readIndex ∧ 0 < queue.length
  | .copied r item => r = s.readIndex ∧ queue[0]? = some item

/-- The ring holds the queue: `base` items have gone before it, and its item `j` is in the slot
`j` places after the read index. -/
structure Holds (capacity base : ℕ) (queue : List T) (s : State T) : Prop where
  length_lt : queue.length < capacity
  writeIndex : s.writeIndex = (base + queue.length) % capacity
  readIndex : s.readIndex = base % capacity
  stored : ∀ j < queue.length, queue[j]? = some (s.data ((base + j) % capacity))
  producer : s.producer.Holds capacity s queue
  consumer : s.consumer.Holds s queue

theorem holds_init {capacity : ℕ} (hcap : 2 ≤ capacity) (data : ℕ → T) :
    Holds capacity 0 [] (init data) where
  length_lt := by simp; omega
  writeIndex := by simp [init]
  readIndex := by simp [init]
  stored := by simp
  producer := trivial
  consumer := trivial

variable {capacity base : ℕ} {queue : List T} {s s' : State T} {e : Event T}

lemma Holds.writeIndex_ne (h : Holds capacity base queue s) {j : ℕ} (hj : j < queue.length) :
    (base + j) % capacity ≠ s.writeIndex := by
  rw [h.writeIndex]
  intro heq
  have hlt := h.length_lt
  have := offset_injective (by omega) hlt heq
  omega

/-- The index test of `push` is exact: it sees a full ring and nothing else. -/
lemma Holds.full_iff (h : Holds capacity base queue s) :
    (s.writeIndex + 1) % capacity = s.readIndex ↔ queue.length + 1 = capacity := by
  have hlt := h.length_lt
  rw [h.writeIndex,h.readIndex,Nat.mod_add_mod,Nat.add_assoc]
  constructor
  · intro heq
    by_contra hne
    have := offset_injective (by omega) (by omega : 0 < capacity) heq
    omega
  · intro heq
    rw [heq,Nat.add_mod_right]

/-- The index test of `pop` is exact: it sees an empty ring and nothing else. -/
lemma Holds.empty_iff (h : Holds capacity base queue s) :
    s.readIndex = s.writeIndex ↔ queue = [] := by
  have hlt := h.length_lt
  rw [h.writeIndex,h.readIndex,← List.length_eq_zero_iff]
  constructor
  · intro heq
    exact (offset_injective (by omega : 0 < capacity) hlt heq).symm
  · intro heq
    rw [heq,Nat.add_zero]

lemma Holds.slots_disjoint (h : Holds capacity base queue s) {w r : ℕ}
    (hw : s.writingSlot = some w) (hr : s.readingSlot = some r) : w ≠ r := by
  have hwrite : w = s.writeIndex := by
    have hp := h.producer
    unfold State.writingSlot at hw
    cases hpc : s.producer <;> simp_all [ProducerPc.Holds]
  have hread : r = s.readIndex ∧ queue ≠ [] := by
    have hc := h.consumer
    unfold State.readingSlot at hr
    cases hpc : s.consumer <;> simp_all [ConsumerPc.Holds]
    · exact List.ne_nil_of_length_pos hc.2
    · rintro rfl
      simp at hc
  rw [hwrite,hread.1]
  intro heq
  exact hread.2 (h.empty_iff.mp heq.symm)

lemma Holds.stored_update (h : Holds capacity base queue s) (item : T) :
    ∀ j < queue.length, queue[j]? =
      some (Function.update s.data s.writeIndex item ((base + j) % capacity)) := by
  intro j hj
  rw [Function.update_of_ne (h.writeIndex_ne hj)]
  exact h.stored j hj

/-- The store of the write index publishes the item behind the others. -/
lemma Holds.publish (h : Holds capacity base queue s) {item : T} {w : ℕ}
    (hpc : s.producer = .written item w) : Holds capacity base (queue ++ [item])
      { s with writeIndex := (w + 1) % capacity, producer := .idle } := by
  have hp := h.producer
  rw [hpc] at hp
  obtain ⟨rfl,hroom,hdata⟩ := hp
  refine ⟨by simpa using hroom,?_,h.readIndex,?_,trivial,?_⟩
  · simp [h.writeIndex,Nat.mod_add_mod,Nat.add_assoc]
  · intro j hj
    rcases Nat.lt_succ_iff_lt_or_eq.mp (by simpa using hj : j < queue.length + 1) with hlt | rfl
    · rw [List.getElem?_append_left hlt]
      exact h.stored j hlt
    · simp [← h.writeIndex,hdata]
  · have hc := h.consumer
    cases hcpc : s.consumer with
    | idle => trivial
    | loaded r => rwa [hcpc] at hc
    | checked r =>
      rw [hcpc] at hc
      refine ⟨hc.1,?_⟩
      rw [List.length_append]
      exact Nat.add_pos_left hc.2 _
    | copied r x =>
      rw [hcpc] at hc
      obtain ⟨hr,hfirst⟩ := hc
      obtain ⟨hpos,_⟩ := List.getElem?_eq_some_iff.mp hfirst
      exact ⟨hr,(List.getElem?_append_left hpos).trans hfirst⟩

/-- The store of the read index releases the slot of the first item. -/
lemma Holds.release (h : Holds capacity base queue s) {item : T} {r : ℕ}
    (hpc : s.consumer = .copied r item) : ∃ rest, queue = item :: rest ∧ Holds capacity (base + 1) rest
      { s with readIndex := (r + 1) % capacity, consumer := .idle } := by
  have hc := h.consumer
  rw [hpc] at hc
  obtain ⟨rfl,hfirst⟩ := hc
  cases queue with
  | nil => simp at hfirst
  | cons first rest =>
    obtain rfl : first = item := by simpa using hfirst
    have hlt := h.length_lt
    simp only [List.length_cons] at hlt
    refine ⟨rest,rfl,by omega,?_,?_,?_,?_,trivial⟩
    · change s.writeIndex = (base + 1 + rest.length) % capacity
      rw [h.writeIndex,List.length_cons]
      congr 1
      omega
    · simp [h.readIndex,Nat.mod_add_mod]
    · intro j hj
      have := h.stored (j + 1) (by simpa using hj)
      rw [show base + (j + 1) = base + 1 + j by omega] at this
      simpa using this
    · have hp := h.producer
      cases hppc : s.producer with
      | idle => trivial
      | loaded x w => simpa [ProducerPc.Holds,hppc] using hp
      | checked x w =>
        rw [hppc] at hp
        exact ⟨hp.1,by have := hp.2; simp only [List.length_cons] at this; omega⟩
      | written x w =>
        rw [hppc] at hp
        exact ⟨hp.1,by have := hp.2.1; simp only [List.length_cons] at this; omega,hp.2.2⟩

/-- Where a thread is does not matter for the content of the ring. -/
lemma Holds.setProducer (h : Holds capacity base queue s) {pc : ProducerPc T}
    (hpc : pc.Holds capacity s queue) : Holds capacity base queue { s with producer := pc } :=
  ⟨h.length_lt,h.writeIndex,h.readIndex,h.stored,hpc,h.consumer⟩

lemma Holds.setConsumer (h : Holds capacity base queue s) {pc : ConsumerPc T}
    (hpc : pc.Holds s queue) : Holds capacity base queue { s with consumer := pc } :=
  ⟨h.length_lt,h.writeIndex,h.readIndex,h.stored,h.producer,hpc⟩

/-- Every step of either thread is a step of the sequential queue. -/
theorem Holds.step {a : Action T} (h : Holds capacity base queue s)
    (hs : SPSCQueue.step capacity s a = some (e,s')) :
    ∃ base' queue', Fifo (capacity - 1) queue e queue' ∧ Holds capacity base' queue' s' := by
  have hp := h.producer
  have hc := h.consumer
  cases step_cases hs with
  | loadWrite item hpc => exact ⟨base,queue,.silent queue,h.setProducer rfl⟩
  | full item w hpc hfull =>
    rw [hpc] at hp
    obtain rfl : w = s.writeIndex := hp
    have hlen := h.full_iff.mp hfull
    exact ⟨base,queue,.full (by omega),h.setProducer trivial⟩
  | room item w hpc hroom =>
    rw [hpc] at hp
    obtain rfl : w = s.writeIndex := hp
    have hlt := h.length_lt
    rw [Ne,h.full_iff] at hroom
    exact ⟨base,queue,.silent queue,h.setProducer ⟨rfl,by omega⟩⟩
  | writeData item w hpc =>
    rw [hpc] at hp
    obtain ⟨rfl,hroom⟩ := hp
    exact ⟨base,queue,.silent queue,h.length_lt,h.writeIndex,h.readIndex,h.stored_update item,
      ⟨rfl,hroom,Function.update_self ..⟩,hc⟩
  | storeWrite item w hpc =>
    have hroom : queue.length + 1 < capacity := by
      rw [hpc] at hp
      exact hp.2.1
    exact ⟨base,queue ++ [item],.push (by omega),h.publish hpc⟩
  | loadRead hpc => exact ⟨base,queue,.silent queue,h.setConsumer rfl⟩
  | empty r hpc hempty =>
    rw [hpc] at hc
    obtain rfl : r = s.readIndex := hc
    obtain rfl := h.empty_iff.mp hempty
    exact ⟨base,[],.empty,h.setConsumer trivial⟩
  | items r hpc hitems =>
    rw [hpc] at hc
    obtain rfl : r = s.readIndex := hc
    rw [Ne,h.empty_iff] at hitems
    exact ⟨base,queue,.silent queue,h.setConsumer ⟨rfl,List.length_pos_iff.mpr hitems⟩⟩
  | readData r hpc =>
    rw [hpc] at hc
    obtain ⟨rfl,hitems⟩ := hc
    have hfirst := h.stored 0 hitems
    rw [Nat.add_zero,← h.readIndex] at hfirst
    exact ⟨base,queue,.silent queue,h.setConsumer ⟨rfl,hfirst⟩⟩
  | storeRead r item hpc =>
    obtain ⟨rest,rfl,hrest⟩ := h.release hpc
    exact ⟨base + 1,rest,.pop item rest,hrest⟩

/-- In a legal history the popped items and the content make up the pushed items. -/
theorem Legal.pushedItems_eq {bound : ℕ} {es : List (Event T)} {q : List T} (h : Legal bound [] es q) :
    pushedItems es = poppedItems es ++ q := by
  generalize hstart : ([] : List T) = start at h
  induction h with
  | nil => simp [← hstart,pushedItems,poppedItems]
  | snoc before last ih =>
    rw [pushedItems_append,poppedItems_append,ih]
    cases last <;> simp [pushedItems,poppedItems]

/-- Along every interleaving the ring holds what is left of a legal history. -/
theorem holds_of_run (hcap : 2 ≤ capacity) {data : ℕ → T} {actions : List (Action T)}
    {events : List (Event T)} (hrun : run (SPSCQueue.step capacity) (init data) actions = some (events,s)) :
    ∃ base queue, Legal (capacity - 1) [] events queue ∧ Holds capacity base queue s := by
  apply run_history_invariant
    (I := fun es s => ∃ base queue, Legal (capacity - 1) [] es queue ∧ Holds capacity base queue s)
    ?_ ⟨0,[],.nil [],holds_init hcap data⟩ hrun
  rintro es s a e s' ⟨base,queue,hlegal,hholds⟩ hs
  obtain ⟨base',queue',hfifo,hholds'⟩ := hholds.step hs
  exact ⟨base',queue',hlegal.snoc hfifo,hholds'⟩

/-- Every interleaving of any pushes and pops yields a legal history of the bounded queue; the
popped items are a prefix of the pushed ones, at most `capacity - 1` items are between, the two
threads never touch one slot, and a call is refused only by a full or an empty queue. -/
theorem run_linearizable (capacity : ℕ) (hcap : 2 ≤ capacity) (data : ℕ → T)
    (actions : List (Action T)) (events : List (Event T)) (s : State T)
    (hrun : run (SPSCQueue.step capacity) (init data) actions = some (events,s)) :
    (∃ content, Legal (capacity - 1) [] events content) ∧
    poppedItems events <+: pushedItems events ∧
    (pushedItems events).length ≤ (poppedItems events).length + (capacity - 1) ∧
    (∀ w r, s.writingSlot = some w → s.readingSlot = some r → w ≠ r) ∧
    (∀ a s', SPSCQueue.step capacity s a = some (.pushFull,s') →
      (pushedItems events).length = (poppedItems events).length + (capacity - 1)) ∧
    ∀ a s', SPSCQueue.step capacity s a = some (.popEmpty,s') →
      poppedItems events = pushedItems events := by
  obtain ⟨base,queue,hlegal,hholds⟩ := holds_of_run hcap hrun
  have hitems := hlegal.pushedItems_eq
  have hlt := hholds.length_lt
  refine ⟨⟨queue,hlegal⟩,⟨queue,hitems.symm⟩,?_,?_,?_,?_⟩
  · rw [hitems,List.length_append]
    omega
  · intro w r hw hr
    exact hholds.slots_disjoint hw hr
  · intro a s' hs
    obtain ⟨_,_,hfifo,_⟩ := hholds.step hs
    cases hfifo with
    | full hfull => rw [hitems,List.length_append,hfull]
  · intro a s' hs
    obtain ⟨_,_,hfifo,_⟩ := hholds.step hs
    cases hfifo with
    | empty => rw [hitems,List.append_nil]

/-- A ring of two slots that fills, refuses a push, empties and wraps. -/
theorem run_linearizable_wrapping : ∃ s,
    run (SPSCQueue.step 2) (init fun _ => 0)
      [.loadWrite 7,.loadRead,.checkFull,.checkEmpty,.writeData,.storeWrite,.loadRead,.loadWrite 8,
        .checkEmpty,.checkFull,.readData,.storeRead,.loadWrite 9,.checkFull,.writeData,.storeWrite] =
      some ([.silent,.silent,.silent,.popEmpty,.silent,.pushed 7,.silent,.silent,.silent,.pushFull,
        .silent,.popped 7,.silent,.silent,.silent,.pushed 9],s) ∧
    [7] <+: [7,9] ∧ ∀ w r, s.writingSlot = some w → s.readingSlot = some r → w ≠ r :=
  run_exists_of_answers rfl fun s hs =>
    have h := run_linearizable 2 (by decide) (fun _ => 0) _ _ s hs
    ⟨h.2.1,h.2.2.2.1⟩

end TickToTrade.SPSCQueue
