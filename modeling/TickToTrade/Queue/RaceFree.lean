import TickToTrade.Queue.WeakMemory

/-! With its memory orders the ring is race free and refines the interleaving of atomic steps. A call
that is refused on an old index is left out there: nothing happens in its place. -/
namespace TickToTrade.SPSCQueue.Weak
open ReleaseAcquire

variable {T : Type*} {capacity i v w r : ℕ} {s s' : State T} {memory : Memory Index ℕ Side ℕ T} {item : T}

/-- A call takes part in the interleaving only from its index check on. -/
def settledPush : ProducerPc T → ProducerPc T
  | .loaded .. => .idle
  | pc => pc

def settledPop : ConsumerPc T → ConsumerPc T
  | .loaded _ => .idle
  | pc => pc

/-- The state of the ring of atomic steps. -/
def State.interleaved (capacity : ℕ) (s : State T) : SPSCQueue.State T where
  writeIndex := s.pushes % capacity
  readIndex := s.pops % capacity
  data := s.memory.plain
  producer := settledPush s.producer
  consumer := settledPop s.consumer

/-- A step that keeps the invariant and is a run of the ring of atomic steps, with the same items. -/
structure Refines (capacity : ℕ) (s : State T) (e : Event T) (s' : State T) : Prop where
  ordered : Ordered capacity s'
  run : ∃ actions es, run (SPSCQueue.step capacity) (s.interleaved capacity) actions = some (es,s'.interleaved capacity) ∧
    pushedItems es = pushedItems [e] ∧ poppedItems es = poppedItems [e]
  pushes : s'.pushes = s.pushes + (pushedItems [e]).length
  pops : s'.pops = s.pops + (poppedItems [e]).length

namespace Ordered

section Load
variable {u : Side} {order : MemoryOrder} {a : Index}

/-- A load as one of the two sides does it. -/
lemma load (h : Ordered capacity s) (horder : order = .acquire ∧ a = u.other.index ∨ order = .relaxed ∧ a = u.index)
    (hload : s.memory.load u order a i = some (v,memory)) : Ordered capacity { s with memory := memory } := by
  have hdone := Memory.load_done hload
  have hmono : ∀ t c, s.memory.views t c ≤ memory.views t c := by
    intro t c
    obtain ⟨⟨hle,_⟩,_⟩ := Memory.load_eq_some_iff.mp hload
    by_cases ht : t = u
    · subst ht
      rw [Memory.load_views_self hload]
      exact Memory.le_loadView hle c
    · rw [Memory.load_views_of_ne hload ht]
  have hhalf : ∀ t begun, Half capacity t begun s.memory → Half capacity t begun memory := by
    intro t begun ht
    refine ht.load h.sound (fun hu => ?_) hload
    subst hu
    rcases horder with ⟨rfl,rfl⟩ | ⟨rfl,rfl⟩
    · cases t <;> exact .inl ⟨rfl,rfl⟩
    · exact .inr ⟨t.index_ne_other.symm,rfl⟩
  have hpushes : ({ s with memory := memory } : State T).pushes = s.pushes := congrFun hdone _
  have hpops : ({ s with memory := memory } : State T).pops = s.pops := congrFun hdone _
  have hwritten : ({ s with memory := memory } : State T).written = s.written := by simp only [State.written,hpushes]
  have hcopied : ({ s with memory := memory } : State T).copied = s.copied := by simp only [State.copied,hpops]
  have hseenPops : s.seenPops ≤ ({ s with memory := memory } : State T).seenPops := hmono .producer _
  have hseenPushes : s.seenPushes ≤ ({ s with memory := memory } : State T).seenPushes := hmono .consumer _
  refine ⟨h.sound.load hload,?_,?_,?_,?_,?_,?_,?_⟩
  · rw [hwritten]
    exact hhalf .producer _ h.producer
  · rw [hcopied]
    exact hhalf .consumer _ h.consumer
  · intro n
    rw [hdone]
    exact h.unread n
  · rw [hpops]
    exact h.items.trans hseenPushes
  · have hroom := h.room
    omega
  · have hpush := h.push
    unfold State.KnowsPush at hpush ⊢
    rw [hpushes]
    split at hpush <;> simp_all <;> omega
  · have hpop := h.pop
    unfold State.KnowsPop at hpop ⊢
    rw [hpops]
    split at hpop <;> simp_all <;> omega

end Load

lemma setProducer (h : Ordered capacity s) {pc : ProducerPc T}
    (hwritten : ({ s with producer := pc } : State T).written = s.written)
    (hpush : ({ s with producer := pc } : State T).KnowsPush capacity) :
    Ordered capacity { s with producer := pc } :=
  ⟨h.sound,hwritten ▸ h.producer,h.consumer,h.unread,h.items,h.room,hpush,h.pop⟩

lemma setConsumer (h : Ordered capacity s) {pc : ConsumerPc T}
    (hcopied : ({ s with consumer := pc } : State T).copied = s.copied)
    (hpop : ({ s with consumer := pc } : State T).KnowsPop capacity) :
    Ordered capacity { s with consumer := pc } :=
  ⟨h.sound,h.producer,hcopied ▸ h.consumer,h.unread,h.items,h.room,h.push,hpop⟩

section Loads
variable {u : Side} {order : MemoryOrder} {a : Index}

lemma interleaved_of_load (hload : s.memory.load u order a i = some (v,memory)) :
    ({ s with memory := memory } : State T).interleaved capacity = s.interleaved capacity := by
  simp [State.interleaved,State.pushes,State.pops,Memory.load_done hload,Memory.load_plain hload]

lemma refines_of_load (hload : s.memory.load u order a i = some (v,memory)) {e : Event T}
    (he : pushedItems [e] = [] ∧ poppedItems [e] = []) {producer : ProducerPc T} {consumer : ConsumerPc T}
    (hproducer : settledPush producer = settledPush s.producer) (hconsumer : settledPop consumer = settledPop s.consumer)
    (hordered : Ordered capacity ⟨memory,producer,consumer⟩) : Refines capacity s e ⟨memory,producer,consumer⟩ where
  ordered := hordered
  run := by
    refine ⟨[],[],?_,he.1.symm,he.2.symm⟩
    rw [run_nil,← interleaved_of_load hload]
    simp [State.interleaved,State.pushes,State.pops,hproducer,hconsumer]
  pushes := by simp [he.1,State.pushes,Memory.load_done hload]
  pops := by simp [he.2,State.pops,Memory.load_done hload]

end Loads

/-- The producer finds its own last store, in relaxed order. -/
lemma loadWrite (h : Ordered capacity s) (hpc : s.producer = .idle)
    (hload : s.memory.load .producer .relaxed .writeIndex i = some (w,memory)) :
    Refines capacity s .silent { s with memory := memory, producer := .loaded item w } := by
  have hlast : i = s.pushes := Memory.Sound.load_last h.producer.stored hload
  have hw : w = s.pushes % capacity := by
    obtain ⟨_,rfl,_⟩ := Memory.load_eq_some_iff.mp hload
    rw [hlast]
    exact h.producer.values _ le_rfl
  have hafter := h.load (.inr ⟨rfl,rfl⟩) hload
  refine refines_of_load hload ⟨rfl,rfl⟩ (by rw [hpc]; rfl) rfl (hafter.setProducer ?_ ?_)
  · simp [State.written,State.pushes,hpc]
  · simp [State.KnowsPush,State.pushes,Memory.load_done hload,hw]

/-- The consumer as well. -/
lemma loadRead (h : Ordered capacity s) (hpc : s.consumer = .idle)
    (hload : s.memory.load .consumer .relaxed .readIndex i = some (r,memory)) :
    Refines capacity s .silent { s with memory := memory, consumer := .loaded r } := by
  have hlast : i = s.pops := Memory.Sound.load_last h.consumer.stored hload
  have hr : r = s.pops % capacity := by
    obtain ⟨_,rfl,_⟩ := Memory.load_eq_some_iff.mp hload
    rw [hlast]
    exact h.consumer.values _ le_rfl
  have hafter := h.load (.inr ⟨rfl,rfl⟩) hload
  refine refines_of_load hload ⟨rfl,rfl⟩ rfl (by rw [hpc]; rfl) (hafter.setConsumer ?_ ?_)
  · simp [State.copied,State.pops,hpc]
  · simp [State.KnowsPop,State.pops,Memory.load_done hload,hr]

/-- The index that the producer loads is not more than a round behind. -/
lemma loaded_readIndex (h : Ordered capacity s) (hload : s.memory.load .producer .acquire .readIndex i = some (r,memory)) :
    r = i % capacity ∧ i ≤ s.pops ∧ s.pops ≤ s.pushes ∧ s.pushes < i + capacity := by
  obtain ⟨⟨hle,hi⟩,rfl,_⟩ := Memory.load_eq_some_iff.mp hload
  replace hle : s.seenPops ≤ i := hle
  have hroom := h.room
  exact ⟨h.consumer.values i hi,hi,h.items.trans h.seenPushes_le,by omega⟩

lemma loaded_writeIndex (h : Ordered capacity s) (hload : s.memory.load .consumer .acquire .writeIndex i = some (w,memory)) :
    w = i % capacity ∧ s.pops ≤ i ∧ i ≤ s.pushes ∧ s.pushes < s.pops + capacity := by
  obtain ⟨⟨hle,hi⟩,rfl,_⟩ := Memory.load_eq_some_iff.mp hload
  have hwritten := h.written_lt
  have hpushes := pushes_le_written (s := s)
  exact ⟨h.producer.values i hi,h.items.trans hle,hi,by omega⟩

/-- A full ring is one that is full after the pops up to store `i`. -/
lemma full_iff (h : Ordered capacity s) (hpc : s.producer = .loaded item w)
    (hload : s.memory.load .producer .acquire .readIndex i = some (r,memory)) :
    (w + 1) % capacity = r ↔ s.pushes + 1 = i + capacity := by
  have hpush := h.push
  rw [State.KnowsPush,hpc] at hpush
  obtain rfl : w = s.pushes % capacity := hpush
  obtain ⟨rfl,hpops,hpushes,hround⟩ := h.loaded_readIndex hload
  rw [Nat.mod_add_mod]
  constructor
  · intro heq
    by_contra hne
    have hdistinct : i % capacity ≠ (s.pushes + 1) % capacity := mod_ne_mod (by omega) (by omega)
    exact hdistinct heq.symm
  · intro heq
    rw [heq,Nat.add_mod_right]

lemma empty_iff (h : Ordered capacity s) (hpc : s.consumer = .loaded r)
    (hload : s.memory.load .consumer .acquire .writeIndex i = some (w,memory)) : r = w ↔ i = s.pops := by
  have hpop := h.pop
  rw [State.KnowsPop,hpc] at hpop
  obtain rfl : r = s.pops % capacity := hpop
  obtain ⟨rfl,hpops,hpushes,hround⟩ := h.loaded_writeIndex hload
  constructor
  · intro heq
    by_contra hne
    have hdistinct : s.pops % capacity ≠ i % capacity := mod_ne_mod (by omega) (by omega)
    exact hdistinct heq
  · rintro rfl
    rfl

lemma checkFull (h : Ordered capacity s) (hpc : s.producer = .loaded item w)
    (hload : s.memory.load .producer .acquire .readIndex i = some (r,memory)) :
    if (w + 1) % capacity = r then Refines capacity s .pushFull { s with memory := memory, producer := .idle }
    else Refines capacity s .silent { s with memory := memory, producer := .checked item w } := by
  have hafter := h.load (.inl ⟨rfl,rfl⟩) hload
  have hwritten : s.written = s.pushes := by simp [State.written,hpc]
  have hpushes : ({ s with memory := memory } : State T).pushes = s.pushes := congrFun (Memory.load_done hload) _
  split
  · refine refines_of_load hload ⟨rfl,rfl⟩ (by rw [hpc]; rfl) rfl (hafter.setProducer ?_ trivial)
    simp [State.written,State.pushes,hpc]
  · rename_i hroom
    have hfull := h.full_iff hpc hload
    have hpush := h.push
    rw [State.KnowsPush,hpc] at hpush
    obtain rfl : w = s.pushes % capacity := hpush
    obtain ⟨rfl,hpops,hle,hround⟩ := h.loaded_readIndex hload
    rw [hfull] at hroom
    have hseen : ({ s with memory := memory } : State T).seenPops = i := by
      simp [State.seenPops,Memory.load_views_self hload]
    refine ⟨hafter.setProducer ?_ ?_,⟨[.loadWrite item,.checkFull],[.silent,.silent],?_,rfl,rfl⟩,hpushes,
      congrFun (Memory.load_done hload) _⟩
    · simp [State.written,State.pushes,hpc]
    · refine ⟨by rw [← hpushes]; rfl,?_⟩
      change ({ s with memory := memory } : State T).pushes + 1 < ({ s with memory := memory } : State T).seenPops + capacity
      omega
    · have hpasses : ¬ (s.pushes + 1) % capacity = s.pops % capacity :=
        (mod_ne_mod (by omega : s.pops < s.pushes + 1) (by omega)).symm
      have hstart : s.interleaved capacity =
          ⟨s.pushes % capacity,s.pops % capacity,s.memory.plain,.idle,settledPop s.consumer⟩ := by
        simp [State.interleaved,settledPush,hpc]
      have hend : ({ s with memory := memory, producer := .checked item (s.pushes % capacity) } : State T).interleaved
          capacity = ⟨s.pushes % capacity,s.pops % capacity,s.memory.plain,.checked item (s.pushes % capacity),
            settledPop s.consumer⟩ := by
        simp [State.interleaved,State.pushes,State.pops,Memory.load_done hload,Memory.load_plain hload,settledPush]
      rw [hstart,hend]
      simp [run,SPSCQueue.step,hpasses]

lemma checkEmpty (h : Ordered capacity s) (hpc : s.consumer = .loaded r)
    (hload : s.memory.load .consumer .acquire .writeIndex i = some (w,memory)) :
    if r = w then Refines capacity s .popEmpty { s with memory := memory, consumer := .idle }
    else Refines capacity s .silent { s with memory := memory, consumer := .checked r } := by
  have hafter := h.load (.inl ⟨rfl,rfl⟩) hload
  have hpops : ({ s with memory := memory } : State T).pops = s.pops := congrFun (Memory.load_done hload) _
  split
  · refine refines_of_load hload ⟨rfl,rfl⟩ rfl (by rw [hpc]; rfl) (hafter.setConsumer ?_ trivial)
    simp [State.copied,State.pops,hpc]
  · rename_i hitems
    have hempty := h.empty_iff hpc hload
    have hpop := h.pop
    rw [State.KnowsPop,hpc] at hpop
    obtain rfl : r = s.pops % capacity := hpop
    obtain ⟨rfl,hle,hpushes,hround⟩ := h.loaded_writeIndex hload
    rw [hempty] at hitems
    have hseen : ({ s with memory := memory } : State T).seenPushes = i := by
      simp [State.seenPushes,Memory.load_views_self hload]
    refine ⟨hafter.setConsumer ?_ ?_,⟨[.loadRead,.checkEmpty],[.silent,.silent],?_,rfl,rfl⟩,
      congrFun (Memory.load_done hload) _,hpops⟩
    · simp [State.copied,State.pops,hpc]
    · refine ⟨by rw [← hpops]; rfl,?_⟩
      change ({ s with memory := memory } : State T).pops < ({ s with memory := memory } : State T).seenPushes
      omega
    · have hpasses : ¬ s.pops % capacity = s.pushes % capacity := mod_ne_mod (by omega) hround
      have hstart : s.interleaved capacity =
          ⟨s.pushes % capacity,s.pops % capacity,s.memory.plain,settledPush s.producer,.idle⟩ := by
        simp [State.interleaved,settledPop,hpc]
      have hend : ({ s with memory := memory, consumer := .checked (s.pops % capacity) } : State T).interleaved
          capacity = ⟨s.pushes % capacity,s.pops % capacity,s.memory.plain,settledPush s.producer,
            .checked (s.pops % capacity)⟩ := by
        simp [State.interleaved,State.pushes,State.pops,Memory.load_done hload,Memory.load_plain hload,settledPop]
      rw [hstart,hend]
      simp [run,SPSCQueue.step,hpasses]

lemma writeData (h : Ordered capacity s) (hpc : s.producer = .checked item w)
    (hwrite : s.memory.write .producer w item = some memory) :
    Refines capacity s .silent { s with memory := memory, producer := .written item w } := by
  have hsound := h.sound.write hwrite
  obtain ⟨_,rfl⟩ := Memory.write_eq_some_iff.mp hwrite
  have hpush := h.push
  rw [State.KnowsPush,hpc] at hpush
  obtain ⟨rfl,hroom⟩ := hpush
  have hwritten : s.written = s.pushes := by simp [State.written,hpc]
  have hproducer := h.producer
  rw [hwritten] at hproducer
  replace hproducer := hproducer.access
  have hconsumer : Half capacity .consumer s.copied (s.memory.advance .producer (.writes (s.pushes % capacity))) :=
    h.consumer.advance_other (by simp) fun n => by simp [Side.access]
  generalize hm : ({ s.memory.advance .producer (.writes (s.pushes % capacity)) with
    plain := Function.update s.memory.plain (s.pushes % capacity) item } : Memory Index ℕ Side ℕ T) = m at hsound
  have hpushes : m.done (.stores .writeIndex) = s.pushes := by simp [← hm,State.pushes]
  have hpops : m.done (.stores .readIndex) = s.pops := by simp [← hm,State.pops]
  have hseenPops : m.views .producer (.stores .readIndex) = s.seenPops := by
    simp [← hm,State.seenPops,Memory.advance_views_self]
  have hseenPushes : m.views .consumer (.stores .writeIndex) = s.seenPushes := by
    simp [← hm,State.seenPushes,Memory.advance_views_of_ne]
  refine ⟨⟨hsound,?_,?_,?_,?_,?_,?_,?_⟩,⟨[.writeData],[.silent],?_,rfl,rfl⟩,hpushes,hpops⟩
  · have hnext : Half capacity .producer (s.pushes + 1) m := hm ▸ hproducer.setPlain _
    simpa only [State.written,State.pushes,hpushes] using hnext
  · have hnext : Half capacity .consumer s.copied m := hm ▸ hconsumer.setPlain _
    simpa only [State.copied,State.pops,hpops] using hnext
  · intro n
    simpa [← hm] using h.unread n
  · simpa only [State.pops,State.seenPushes,hpops,hseenPushes] using h.items
  · simpa only [State.pushes,State.seenPops,hpushes,hseenPops] using h.room
  · simpa only [State.KnowsPush,State.pushes,State.seenPops,hpushes,hseenPops,true_and] using hroom
  · simpa only [State.KnowsPop,State.pops,State.seenPushes,hpops,hseenPushes] using h.pop
  · simp [run,SPSCQueue.step,State.interleaved,settledPush,hpc,State.pushes,State.pops,← hm]

lemma readData (h : Ordered capacity s) (hpc : s.consumer = .checked r)
    (hread : s.memory.read .consumer r = some (item,memory)) :
    Refines capacity s .silent { s with memory := memory, consumer := .copied r item } := by
  have hsound := h.sound.read hread
  obtain ⟨_,rfl,rfl⟩ := Memory.read_eq_some_iff.mp hread
  have hpop := h.pop
  rw [State.KnowsPop,hpc] at hpop
  obtain ⟨rfl,hitems⟩ := hpop
  have hcopied : s.copied = s.pops := by simp [State.copied,hpc]
  have hconsumer := h.consumer
  rw [hcopied] at hconsumer
  replace hconsumer := hconsumer.access
  have hproducer : Half capacity .producer s.written (s.memory.advance .consumer (.reads (s.pops % capacity) .consumer)) :=
    h.producer.advance_other (by simp) fun n => by simp [Side.access]
  have hunread : ∀ n, (s.memory.advance .consumer (.reads (s.pops % capacity) .consumer)).done (.reads n .producer) = 0 := by
    simpa using h.unread
  generalize hm : s.memory.advance .consumer (.reads (s.pops % capacity) .consumer) = m at hsound hproducer hunread
  replace hconsumer : Half capacity .consumer (s.pops + 1) m := hm ▸ hconsumer
  have hplain : m.plain = s.memory.plain := by simp [← hm]
  have hpushes : m.done (.stores .writeIndex) = s.pushes := by simp [← hm,State.pushes]
  have hpops : m.done (.stores .readIndex) = s.pops := by simp [← hm,State.pops]
  have hseenPops : m.views .producer (.stores .readIndex) = s.seenPops := by
    simp [← hm,State.seenPops,Memory.advance_views_of_ne]
  have hseenPushes : m.views .consumer (.stores .writeIndex) = s.seenPushes := by
    simp [← hm,State.seenPushes,Memory.advance_views_self]
  refine ⟨⟨hsound,?_,?_,hunread,?_,?_,?_,?_⟩,⟨[.readData],[.silent],?_,rfl,rfl⟩,hpushes,hpops⟩
  · simpa only [State.written,State.pushes,hpushes] using hproducer
  · simpa only [State.copied,State.pops,hpops] using hconsumer
  · simpa only [State.pops,State.seenPushes,hpops,hseenPushes] using h.items
  · simpa only [State.pushes,State.seenPops,hpushes,hseenPops] using h.room
  · simpa only [State.KnowsPush,State.pushes,State.seenPops,hpushes,hseenPops] using h.push
  · simpa only [State.KnowsPop,State.pops,State.seenPushes,hpops,hseenPushes,true_and] using hitems
  · simp [run,SPSCQueue.step,State.interleaved,settledPop,hpc,State.pushes,State.pops,hpushes,hpops,hplain]

lemma storeWrite (h : Ordered capacity s) (hpc : s.producer = .written item w)
    (hstore : s.memory.store .producer .release .writeIndex ((w + 1) % capacity) = some memory) :
    Refines capacity s (.pushed item) { s with memory := memory, producer := .idle } := by
  have hsound := h.sound.store hstore
  have hpush := h.push
  rw [State.KnowsPush,hpc] at hpush
  obtain ⟨rfl,hroom⟩ := hpush
  rw [Nat.mod_add_mod] at hstore
  have hwritten : s.written = s.pushes + 1 := by simp [State.written,hpc]
  have hproducer := h.producer
  rw [hwritten] at hproducer
  replace hproducer := hproducer.store h.capacity_pos rfl hstore
  have hconsumer : Half capacity .consumer s.copied memory := h.consumer.store_other hstore
  obtain ⟨_,hm⟩ := Memory.store_eq_some_iff.mp hstore
  have hplain : memory.plain = s.memory.plain := by simp [hm]
  have hpushes : memory.done (.stores .writeIndex) = s.pushes + 1 := by simp [hm,State.pushes]
  have hpops : memory.done (.stores .readIndex) = s.pops := by simp [hm,State.pops]
  have hseenPops : memory.views .producer (.stores .readIndex) = s.seenPops := by
    simp [hm,State.seenPops,Memory.advance_views_self]
  have hseenPushes : memory.views .consumer (.stores .writeIndex) = s.seenPushes := by
    simp [hm,State.seenPushes,Memory.advance_views_of_ne]
  have hunread : ∀ n, memory.done (.reads n .producer) = 0 := by simpa [hm] using h.unread
  refine ⟨⟨hsound,?_,?_,hunread,?_,?_,trivial,?_⟩,⟨[.storeWrite],[.pushed item],?_,rfl,rfl⟩,hpushes,hpops⟩
  · rw [State.written,State.pushes,hpushes]
    exact hproducer
  · simpa only [State.copied,State.pops,hpops] using hconsumer
  · simpa only [State.pops,State.seenPushes,hpops,hseenPushes] using h.items
  · simpa only [State.pushes,State.seenPops,hpushes,hseenPops] using hroom
  · simpa only [State.KnowsPop,State.pops,State.seenPushes,hpops,hseenPushes] using h.pop
  · simp [run,SPSCQueue.step,State.interleaved,settledPush,hpc,State.pushes,State.pops,hpushes,hpops,hplain]

lemma storeRead (h : Ordered capacity s) (hpc : s.consumer = .copied r item)
    (hstore : s.memory.store .consumer .release .readIndex ((r + 1) % capacity) = some memory) :
    Refines capacity s (.popped item) { s with memory := memory, consumer := .idle } := by
  have hsound := h.sound.store hstore
  have hpop := h.pop
  rw [State.KnowsPop,hpc] at hpop
  obtain ⟨rfl,hitems⟩ := hpop
  rw [Nat.mod_add_mod] at hstore
  have hcopied : s.copied = s.pops + 1 := by simp [State.copied,hpc]
  have hconsumer := h.consumer
  rw [hcopied] at hconsumer
  replace hconsumer := hconsumer.store h.capacity_pos rfl hstore
  have hproducer : Half capacity .producer s.written memory := h.producer.store_other hstore
  obtain ⟨_,hm⟩ := Memory.store_eq_some_iff.mp hstore
  have hplain : memory.plain = s.memory.plain := by simp [hm]
  have hpushes : memory.done (.stores .writeIndex) = s.pushes := by simp [hm,State.pushes]
  have hpops : memory.done (.stores .readIndex) = s.pops + 1 := by simp [hm,State.pops]
  have hseenPops : memory.views .producer (.stores .readIndex) = s.seenPops := by
    simp [hm,State.seenPops,Memory.advance_views_of_ne]
  have hseenPushes : memory.views .consumer (.stores .writeIndex) = s.seenPushes := by
    simp [hm,State.seenPushes,Memory.advance_views_self]
  have hunread : ∀ n, memory.done (.reads n .producer) = 0 := by simpa [hm] using h.unread
  refine ⟨⟨hsound,?_,?_,hunread,?_,?_,?_,trivial⟩,⟨[.storeRead],[.popped item],?_,rfl,rfl⟩,hpushes,hpops⟩
  · simpa only [State.written,State.pushes,hpushes] using hproducer
  · rw [State.copied,State.pops,hpops]
    exact hconsumer
  · simpa only [State.pops,State.seenPushes,hpops,hseenPushes] using Nat.succ_le_of_lt hitems
  · simpa only [State.pushes,State.seenPops,hpushes,hseenPops] using h.room
  · simpa only [State.KnowsPush,State.pushes,State.seenPops,hpushes,hseenPops] using h.push
  · simp [run,SPSCQueue.step,State.interleaved,settledPop,hpc,State.pushes,State.pops,hpushes,hpops,hplain]

/-- Every step of either side, whatever store its load returns. -/
theorem step {a : Action T} {e : Event T} (h : Ordered capacity s) (hstep : Weak.step capacity s a = some (e,s')) :
    Refines capacity s e s' := by
  cases step_cases hstep with
  | loadWrite hpc hload => exact h.loadWrite hpc hload
  | full hpc hload hfull => simpa only [if_pos hfull] using h.checkFull hpc hload
  | room hpc hload hroom => simpa only [if_neg hroom] using h.checkFull hpc hload
  | writeData hpc hwrite => exact h.writeData hpc hwrite
  | storeWrite hpc hstore => exact h.storeWrite hpc hstore
  | loadRead hpc hload => exact h.loadRead hpc hload
  | empty hpc hload hempty => simpa only [if_pos hempty] using h.checkEmpty hpc hload
  | items hpc hload hitems => simpa only [if_neg hitems] using h.checkEmpty hpc hload
  | readData hpc hread => exact h.readData hpc hread
  | storeRead hpc hstore => exact h.storeRead hpc hstore

end Ordered

/-- Along a run the invariant holds, and the ring of atomic steps has pushed and popped the same. -/
structure Follows (capacity : ℕ) (data : ℕ → T) (events : List (Event T)) (s : State T) : Prop where
  ordered : Ordered capacity s
  run : ∃ actions es, run (SPSCQueue.step capacity) (SPSCQueue.init data) actions = some (es,s.interleaved capacity) ∧
    pushedItems es = pushedItems events ∧ poppedItems es = poppedItems events
  pushes : s.pushes = (pushedItems events).length
  pops : s.pops = (poppedItems events).length

lemma follows_init (hcap : 0 < capacity) (data : ℕ → T) : Follows capacity data [] (init data) where
  ordered := ordered_init hcap data
  run := by
    refine ⟨[],[],?_,rfl,rfl⟩
    simp [State.interleaved,SPSCQueue.init,init,State.pushes,State.pops,Memory.init,settledPush,settledPop]
  pushes := rfl
  pops := rfl

theorem Follows.step {data : ℕ → T} {events : List (Event T)} {a : Action T} {e : Event T}
    (h : Follows capacity data events s) (hstep : Weak.step capacity s a = some (e,s')) :
    Follows capacity data (events ++ [e]) s' := by
  obtain ⟨hordered,⟨actions',es',hrun',hpushed',hpopped'⟩,hpushes,hpops⟩ := h.ordered.step hstep
  obtain ⟨actions,es,hrun,hpushed,hpopped⟩ := h.run
  refine ⟨hordered,⟨actions ++ actions',es ++ es',?_,?_,?_⟩,?_,?_⟩
  · exact run_append_eq_some.mpr ⟨_,es,es',hrun,hrun',rfl⟩
  · rw [pushedItems_append,pushedItems_append,hpushed,hpushed']
  · rw [poppedItems_append,poppedItems_append,hpopped,hpopped']
  · rw [hpushes,h.pushes,pushedItems_append,List.length_append]
  · rw [hpops,h.pops,poppedItems_append,List.length_append]

theorem follows_of_run (hcap : 0 < capacity) {data : ℕ → T} {actions : List (Action T)} {events : List (Event T)}
    (hrun : run (Weak.step capacity) (init data) actions = some (events,s)) : Follows capacity data events s :=
  run_history_invariant (fun _ _ _ _ _ h hstep => h.step hstep) (follows_init hcap data) hrun

lemma Follows.items_in_order (hcap : 2 ≤ capacity) {data : ℕ → T} {events : List (Event T)}
    (h : Follows capacity data events s) : poppedItems events <+: pushedItems events := by
  obtain ⟨actions,es,hrun,hpushed,hpopped⟩ := h.run
  obtain ⟨base,queue,hlegal,_⟩ := holds_of_run hcap hrun
  rw [← hpushed,← hpopped,hlegal.pushedItems_eq]
  exact List.prefix_append _ _

section Answers
variable {data : ℕ → T} {events : List (Event T)}

lemma Follows.loadWrite_last (h : Follows capacity data events s)
    (hsome : (Weak.step capacity s (.loadWrite item i)).isSome) : i = (pushedItems events).length := by
  obtain ⟨⟨e,s'⟩,hstep⟩ := Option.isSome_iff_exists.mp hsome
  cases step_cases hstep with
  | loadWrite hpc hload => exact (Memory.Sound.load_last h.ordered.producer.stored hload).trans h.pushes

lemma Follows.loadRead_last (h : Follows capacity data events s)
    (hsome : (Weak.step capacity s (.loadRead i)).isSome) : i = (poppedItems events).length := by
  obtain ⟨⟨e,s'⟩,hstep⟩ := Option.isSome_iff_exists.mp hsome
  cases step_cases hstep with
  | loadRead hpc hload => exact (Memory.Sound.load_last h.ordered.consumer.stored hload).trans h.pops

lemma Follows.refused (h : Follows capacity data events s)
    (hstep : Weak.step capacity s (.checkFull i) = some (.pushFull,s')) :
    i ≤ (poppedItems events).length ∧ (pushedItems events).length = i + (capacity - 1) := by
  cases step_cases hstep with
  | full hpc hload hfull =>
    have hround := (h.ordered.full_iff hpc hload).mp hfull
    obtain ⟨_,hpops,hpushes,_⟩ := h.ordered.loaded_readIndex hload
    rw [← h.pushes,← h.pops]
    omega

lemma Follows.found_empty (h : Follows capacity data events s)
    (hstep : Weak.step capacity s (.checkEmpty i) = some (.popEmpty,s')) :
    i ≤ (pushedItems events).length ∧ (poppedItems events).length = i := by
  cases step_cases hstep with
  | empty hpc hload hempty =>
    have hlast := (h.ordered.empty_iff hpc hload).mp hempty
    obtain ⟨_,_,hpushes,_⟩ := h.ordered.loaded_writeIndex hload
    rw [← h.pushes,← h.pops]
    exact ⟨hpushes,hlast.symm⟩

end Answers

/-- Whatever old stores the loads return: no access to a slot is a data race, a side finds its own last
store, an interleaving of atomic steps pushes and pops the same items, so what is popped is what was
pushed, once and in order, and a call is refused only if the ring was full, or empty, at the store it
has seen. -/
theorem run_race_free (capacity : ℕ) (hcap : 2 ≤ capacity) (data : ℕ → T) (actions : List (Action T))
    (events : List (Event T)) (s : State T)
    (hrun : run (Weak.step capacity) (init data) actions = some (events,s)) :
    ((∀ item w, s.producer = .checked item w → (Weak.step capacity s .writeData).isSome) ∧
      ∀ r, s.consumer = .checked r → (Weak.step capacity s .readData).isSome) ∧
    ((∀ item i, (Weak.step capacity s (.loadWrite item i)).isSome → i = (pushedItems events).length) ∧
      ∀ i, (Weak.step capacity s (.loadRead i)).isSome → i = (poppedItems events).length) ∧
    (∃ actions' events', run (SPSCQueue.step capacity) (SPSCQueue.init data) actions' =
        some (events',s.interleaved capacity) ∧
      pushedItems events' = pushedItems events ∧ poppedItems events' = poppedItems events) ∧
    poppedItems events <+: pushedItems events ∧
    (∀ i s', Weak.step capacity s (.checkFull i) = some (.pushFull,s') →
      i ≤ (poppedItems events).length ∧ (pushedItems events).length = i + (capacity - 1)) ∧
    ∀ i s', Weak.step capacity s (.checkEmpty i) = some (.popEmpty,s') →
      i ≤ (pushedItems events).length ∧ (poppedItems events).length = i := by
  have h := follows_of_run (by omega) hrun
  obtain ⟨actions',events',hrun',hpushed,hpopped⟩ := h.run
  refine ⟨⟨?_,?_⟩,⟨?_,?_⟩,⟨actions',events',hrun',hpushed,hpopped⟩,?_,?_,?_⟩
  · intro item w hpc
    obtain ⟨memory,hwrite⟩ := Option.isSome_iff_exists.mp (h.ordered.write_isSome hpc)
    simp [Weak.step,stepWith,hpc,hwrite]
  · intro r hpc
    obtain ⟨⟨item,memory⟩,hread⟩ := Option.isSome_iff_exists.mp (h.ordered.read_isSome hpc)
    simp [Weak.step,stepWith,hpc,hread]
  · exact fun item i hsome => h.loadWrite_last hsome
  · exact fun i hsome => h.loadRead_last hsome
  · exact h.items_in_order hcap
  · exact fun i s' hstep => h.refused hstep
  · exact fun i s' hstep => h.found_empty hstep

/-- An old write index makes a pop find nothing, and an old read index makes a push find no room. -/
theorem run_race_free_old_stores : ∃ s,
    run (Weak.step 2) (init fun _ => 0)
      [.loadWrite 7 0,.checkFull 0,.writeData,.storeWrite,.loadRead 0,.checkEmpty 0,.loadRead 0,.checkEmpty 1,.readData,
        .storeRead,.loadWrite 8 1,.checkFull 0,.loadWrite 9 1,.checkFull 1] =
      some ([.silent,.silent,.silent,.pushed 7,.silent,.popEmpty,.silent,.silent,.silent,.popped 7,.silent,.pushFull,
        .silent,.silent],s) ∧
    (∀ item w, s.producer = .checked item w → (Weak.step 2 s .writeData).isSome) ∧ [7] <+: [7] :=
  run_exists_of_answers rfl fun s hs =>
    have h := run_race_free 2 (by decide) (fun _ => 0) _ _ s hs
    ⟨h.1.1,h.2.2.2.1⟩

end TickToTrade.SPSCQueue.Weak
