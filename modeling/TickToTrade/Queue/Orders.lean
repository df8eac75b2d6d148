import TickToTrade.Queue.RaceFree

/-! None of the ring's memory orders can be relaxed. With any weaker one there is a race: either the
consumer reads the first item without knowing that it was written, or the producer writes the first
slot again without knowing that it was read. -/
namespace TickToTrade.SPSCQueue.Weak
open ReleaseAcquire

variable {T : Type*}

/-- No access to a slot that a side is about to make is a data race. -/
structure NoRace (s : State T) : Prop where
  write : ∀ item w, s.producer = .checked item w → (s.memory.write .producer w item).isSome
  read : ∀ r, s.consumer = .checked r → (s.memory.read .consumer r).isSome

namespace Orders

/-- The order in which the other side loads the index of `t`. -/
def load (orders : Orders) : Side → MemoryOrder
  | .producer => orders.checkEmpty
  | .consumer => orders.checkFull

/-- The order in which `t` stores its index. -/
def store (orders : Orders) : Side → MemoryOrder
  | .producer => orders.storeWrite
  | .consumer => orders.storeRead

end Orders

/-- The other side never learns of the accesses of `t`, whose index it loads in this order. -/
structure Ignorant (order : MemoryOrder) (t : Side) (m : Memory Index ℕ Side ℕ T) : Prop where
  unseen : ∀ n, m.views t.other (t.access n) = 0
  unsent : order = .acquire → ∀ i n, (m.stores t.index i).view (t.access n) = 0

namespace Ignorant
variable {order order' : MemoryOrder} {t u : Side} {a : Index} {i v : ℕ} {m m' : Memory Index ℕ Side ℕ T}

lemma load (h : Ignorant order t m) (hother : u = t.other → a = t.index ∧ order' = order ∨ order' = .relaxed)
    (hload : m.load u order' a i = some (v,m')) : Ignorant order t m' := by
  refine ⟨fun n => ?_,?_⟩
  · by_cases hu : t.other = u
    · subst hu
      rw [Memory.load_views_self hload,Memory.loadView,Function.update_of_ne (t.access_ne_stores n a)]
      split
      · rename_i hacquire
        subst hacquire
        rcases hother rfl with ⟨rfl,rfl⟩ | hrelaxed
        · simp [h.unseen n,h.unsent rfl i n]
        · contradiction
      · exact h.unseen n
    · rw [Memory.load_views_of_ne hload hu]
      exact h.unseen n
  · rw [Memory.load_stores hload]
    exact h.unsent

lemma advance (h : Ignorant order t m) {c : Counter Index ℕ Side} (hc : u = t.other → ∀ n, t.access n ≠ c) :
    Ignorant order t (m.advance u c) := by
  refine ⟨fun n => ?_,h.unsent⟩
  by_cases hu : t.other = u
  · subst hu
    rw [Memory.advance_views_self,Function.update_of_ne (hc rfl n)]
    exact h.unseen n
  · rw [Memory.advance_views_of_ne hu]
    exact h.unseen n

lemma store (h : Ignorant order t m) (hown : u = t → order = .acquire → order' ≠ .release)
    (hstore : m.store u order' u.index v = some m') : Ignorant order t m' := by
  obtain ⟨_,rfl⟩ := Memory.store_eq_some_iff.mp hstore
  refine ⟨(h.advance fun _ n => t.access_ne_stores n _).unseen,fun hacquire i n => ?_⟩
  have hold := h.unsent hacquire i n
  by_cases hu : t.index = u.index
  · have htu : t = u := by
      cases t <;> cases u <;> first | rfl | contradiction
    subst htu
    simp only [Memory.addStore,Function.update_self,Function.update_apply]
    split
    · simp [Memory.storeView,hown rfl hacquire]
    · exact hold
  · simpa [Memory.addStore,hu] using hold

lemma setPlain (h : Ignorant order t m) (plain : ℕ → T) : Ignorant order t { m with plain := plain } := ⟨h.unseen,h.unsent⟩

end Ignorant

section Step
variable {orders : Orders} {capacity : ℕ} {s s' : State T} {a : Action T} {e : Event T} {t : Side}

/-- If one of the two orders is missing, the other side stays ignorant. -/
theorem Ignorant.step (hmissing : orders.load t = .acquire → orders.store t ≠ .release)
    (h : Ignorant (orders.load t) t s.memory) (hstep : stepWith orders capacity s a = some (e,s')) :
    Ignorant (orders.load t) t s'.memory := by
  have hfull : ∀ {i v memory}, s.memory.load .producer orders.checkFull .readIndex i = some (v,memory) →
      Ignorant (orders.load t) t memory := by
    intro i v memory hload
    refine h.load (fun hu => .inl ?_) hload
    cases t with
    | producer => contradiction
    | consumer => exact ⟨rfl,rfl⟩
  have hempty : ∀ {i v memory}, s.memory.load .consumer orders.checkEmpty .writeIndex i = some (v,memory) →
      Ignorant (orders.load t) t memory := by
    intro i v memory hload
    refine h.load (fun hu => .inl ?_) hload
    cases t with
    | producer => exact ⟨rfl,rfl⟩
    | consumer => contradiction
  cases step_cases hstep with
  | loadWrite hpc hload => exact h.load (fun _ => .inr rfl) hload
  | full hpc hload => exact hfull hload
  | room hpc hload => exact hfull hload
  | writeData hpc hwrite =>
    obtain ⟨_,rfl⟩ := Memory.write_eq_some_iff.mp hwrite
    refine (h.advance fun hu n => ?_).setPlain _
    cases t with
    | producer => contradiction
    | consumer => simp [Side.access]
  | storeWrite hpc hstore =>
    refine h.store (u := .producer) (fun hu hacquire => ?_) hstore
    subst hu
    exact hmissing hacquire
  | loadRead hpc hload => exact h.load (fun _ => .inr rfl) hload
  | empty hpc hload => exact hempty hload
  | items hpc hload => exact hempty hload
  | readData hpc hread =>
    obtain ⟨_,_,rfl⟩ := Memory.read_eq_some_iff.mp hread
    refine h.advance fun hu n => ?_
    cases t with
    | producer => simp [Side.access]
    | consumer => contradiction
  | storeRead hpc hstore =>
    refine h.store (u := .consumer) (fun hu hacquire => ?_) hstore
    subst hu
    exact hmissing hacquire

end Step

/-- A ring whose loads have all returned the last store, beside the ring of atomic steps. -/
structure Latest (capacity : ℕ) (es : List (Event T)) (s : State T) (q : SPSCQueue.State T) : Prop where
  sound : s.memory.Sound
  writeIndex : q.writeIndex = s.pushes % capacity
  readIndex : q.readIndex = s.pops % capacity
  writeValue : (s.memory.stores .writeIndex s.pushes).value = q.writeIndex
  readValue : (s.memory.stores .readIndex s.pops).value = q.readIndex
  plain : s.memory.plain = q.data
  producer : s.producer = q.producer
  consumer : s.consumer = q.consumer
  ownPushes : s.memory.views .producer (.stores .writeIndex) = s.pushes
  ownPops : s.memory.views .consumer (.stores .readIndex) = s.pops
  writes : ∀ n, s.memory.done (.writes n) = visits capacity s.written n
  reads : ∀ n, s.memory.done (.reads n .consumer) = visits capacity s.copied n
  pushes : s.pushes = (pushedItems es).length
  pops : s.pops = (poppedItems es).length

namespace Latest
variable {orders : Orders} {capacity base i v : ℕ} {es : List (Event T)} {s s' : State T} {q q' : SPSCQueue.State T}
  {queue : List T} {a : SPSCQueue.Action T} {e : Event T} {memory : Memory Index ℕ Side ℕ T}

lemma init (capacity : ℕ) (data : ℕ → T) : Latest capacity [] (Weak.init data) (SPSCQueue.init data) where
  sound := Memory.sound_init _ _
  writeIndex := (Nat.zero_mod _).symm
  readIndex := (Nat.zero_mod _).symm
  writeValue := rfl
  readValue := rfl
  plain := rfl
  producer := rfl
  consumer := rfl
  ownPushes := rfl
  ownPops := rfl
  writes _ := rfl
  reads _ := rfl
  pushes := rfl
  pops := rfl

lemma load_writeIndex (h : Latest capacity es s q) (t : Side) (order : MemoryOrder) :
    ∃ memory, s.memory.load t order .writeIndex (s.memory.done (.stores .writeIndex)) = some (q.writeIndex,memory) := by
  obtain ⟨memory,hload⟩ := h.sound.load_latest t order .writeIndex
  exact ⟨memory,h.writeValue ▸ hload⟩

lemma load_readIndex (h : Latest capacity es s q) (t : Side) (order : MemoryOrder) :
    ∃ memory, s.memory.load t order .readIndex (s.memory.done (.stores .readIndex)) = some (q.readIndex,memory) := by
  obtain ⟨memory,hload⟩ := h.sound.load_latest t order .readIndex
  exact ⟨memory,h.readValue ▸ hload⟩

/-- A load, and a move of its side. -/
lemma load (h : Latest capacity es s q) {u : Side} {order : MemoryOrder} {x : Index}
    (hload : s.memory.load u order x i = some (v,memory)) (he : pushedItems [e] = [] ∧ poppedItems [e] = [])
    (producer : ProducerPc T) (consumer : ConsumerPc T) (hwritten : (⟨memory,producer,consumer⟩ : State T).written = s.written)
    (hcopied : (⟨memory,producer,consumer⟩ : State T).copied = s.copied) :
    Latest capacity (es ++ [e]) ⟨memory,producer,consumer⟩ { q with producer := producer, consumer := consumer } := by
  have hpushes : (⟨memory,producer,consumer⟩ : State T).pushes = s.pushes := congrFun (Memory.load_done hload) _
  have hpops : (⟨memory,producer,consumer⟩ : State T).pops = s.pops := congrFun (Memory.load_done hload) _
  have hown : ∀ t c, s.memory.views t c = s.memory.done c → memory.views t c = memory.done c := by
    intro t c hc
    by_cases ht : t = u
    · subst ht
      exact h.sound.load_own hc hload
    · rw [Memory.load_views_of_ne hload ht,Memory.load_done hload,hc]
  refine ⟨h.sound.load hload,?_,?_,?_,?_,?_,rfl,rfl,hown _ _ h.ownPushes,hown _ _ h.ownPops,?_,?_,?_,?_⟩
  · rw [hpushes]
    exact h.writeIndex
  · rw [hpops]
    exact h.readIndex
  · rw [hpushes,Memory.load_stores hload]
    exact h.writeValue
  · rw [hpops,Memory.load_stores hload]
    exact h.readValue
  · rw [Memory.load_plain hload]
    exact h.plain
  · rw [hwritten,Memory.load_done hload]
    exact h.writes
  · rw [hcopied,Memory.load_done hload]
    exact h.reads
  · rw [hpushes,pushedItems_append,he.1,List.append_nil]
    exact h.pushes
  · rw [hpops,poppedItems_append,he.2,List.append_nil]
    exact h.pops

/-- Where no race is near, every step of the ring of atomic steps is one of these. -/
theorem step (h : Latest capacity es s q) (hholds : Holds capacity base queue q) (hfree : NoRace s)
    (hstep : SPSCQueue.step capacity q a = some (e,q')) :
    ∃ a' s', stepWith orders capacity s a' = some (e,s') ∧ Latest capacity (es ++ [e]) s' q' := by
  have hp := hholds.producer
  have hc := hholds.consumer
  obtain ⟨m,p,c⟩ := s
  obtain ⟨writeIndex,readIndex,data,p',c'⟩ := q
  obtain rfl : p = p' := h.producer
  obtain rfl : c = c' := h.consumer
  cases SPSCQueue.step_cases hstep with
  | loadWrite item hpc =>
    obtain rfl : p = .idle := hpc
    obtain ⟨memory,hload⟩ := h.load_writeIndex .producer .relaxed
    have hdone := Memory.load_done hload
    refine ⟨.loadWrite item (m.done (.stores .writeIndex)),⟨memory,.loaded item writeIndex,c⟩,?_,h.load hload ⟨rfl,rfl⟩ _ _ ?_ ?_⟩
    · simp [stepWith,hload]
    · simp [State.written,State.pushes,hdone]
    · simp [State.copied,State.pops,hdone]
  | full item w hpc hfull =>
    obtain rfl : p = .loaded item w := hpc
    obtain ⟨memory,hload⟩ := h.load_readIndex .producer orders.checkFull
    have hdone := Memory.load_done hload
    refine ⟨.checkFull (m.done (.stores .readIndex)),⟨memory,.idle,c⟩,?_,h.load hload ⟨rfl,rfl⟩ _ _ ?_ ?_⟩
    · replace hfull : (w + 1) % capacity = readIndex := hfull
      simp [stepWith,hload,hfull]
    · simp [State.written,State.pushes,hdone]
    · simp [State.copied,State.pops,hdone]
  | room item w hpc hroom =>
    obtain rfl : p = .loaded item w := hpc
    obtain ⟨memory,hload⟩ := h.load_readIndex .producer orders.checkFull
    have hdone := Memory.load_done hload
    refine ⟨.checkFull (m.done (.stores .readIndex)),⟨memory,.checked item w,c⟩,?_,h.load hload ⟨rfl,rfl⟩ _ _ ?_ ?_⟩
    · replace hroom : (w + 1) % capacity ≠ readIndex := hroom
      simp [stepWith,hload,hroom]
    · simp [State.written,State.pushes,hdone]
    · simp [State.copied,State.pops,hdone]
  | writeData item w hpc =>
    obtain rfl : p = .checked item w := hpc
    obtain ⟨rfl,_⟩ : w = writeIndex ∧ _ := hp
    obtain ⟨memory,hwrite⟩ := Option.isSome_iff_exists.mp (hfree.write item w rfl)
    refine ⟨.writeData,⟨memory,.written item w,c⟩,?_,?_⟩
    · simp [stepWith,hwrite]
    · have hsound := h.sound.write hwrite
      have hw : w = m.done (.stores .writeIndex) % capacity := h.writeIndex
      have hwrites := fun n => advance_accesses (t := .producer) (h.writes n)
      obtain ⟨_,rfl⟩ := Memory.write_eq_some_iff.mp hwrite
      refine ⟨hsound,?_,?_,?_,?_,?_,rfl,rfl,?_,?_,?_,?_,?_,?_⟩
      · simpa [State.pushes] using h.writeIndex
      · simpa [State.pops] using h.readIndex
      · simpa [State.pushes] using h.writeValue
      · simpa [State.pops] using h.readValue
      · simpa using congrArg (Function.update · w item) h.plain
      · simpa [State.pushes,Memory.advance_views_self] using h.ownPushes
      · simpa [State.pops,Memory.advance_views_of_ne] using h.ownPops
      · simpa [State.written,State.pushes,Side.access,← hw] using hwrites
      · simpa [State.copied,State.pops] using h.reads
      · simpa [State.pushes,pushedItems_append,pushedItems] using h.pushes
      · simpa [State.pops,poppedItems_append,poppedItems] using h.pops
  | storeWrite item w hpc =>
    obtain rfl : p = .written item w := hpc
    obtain ⟨rfl,_⟩ : w = writeIndex ∧ _ := hp
    have hw : w = m.done (.stores .writeIndex) % capacity := h.writeIndex
    obtain ⟨memory,hstore⟩ : ∃ memory, m.store .producer orders.storeWrite .writeIndex ((w + 1) % capacity) = some memory :=
      ⟨_,Memory.store_eq_some_iff.mpr ⟨h.ownPushes,rfl⟩⟩
    refine ⟨.storeWrite,⟨memory,.idle,c⟩,?_,?_⟩
    · simp [stepWith,hstore]
    · have hsound := h.sound.store hstore
      obtain ⟨_,rfl⟩ := Memory.store_eq_some_iff.mp hstore
      refine ⟨hsound,?_,?_,?_,?_,?_,rfl,rfl,?_,?_,?_,?_,?_,?_⟩
      · simp [State.pushes,hw]
      · simpa [State.pops] using h.readIndex
      · simp [State.pushes]
      · simpa [State.pops,Memory.addStore] using h.readValue
      · simpa using h.plain
      · simp [State.pushes,Memory.advance_views_self]
      · simpa [State.pops,Memory.advance_views_of_ne] using h.ownPops
      · simpa [State.written,State.pushes] using h.writes
      · simpa [State.copied,State.pops] using h.reads
      · simpa [State.pushes,pushedItems_append,pushedItems] using h.pushes
      · simpa [State.pops,poppedItems_append,poppedItems] using h.pops
  | loadRead hpc =>
    obtain rfl : c = .idle := hpc
    obtain ⟨memory,hload⟩ := h.load_readIndex .consumer .relaxed
    have hdone := Memory.load_done hload
    refine ⟨.loadRead (m.done (.stores .readIndex)),⟨memory,p,.loaded readIndex⟩,?_,h.load hload ⟨rfl,rfl⟩ _ _ ?_ ?_⟩
    · simp [stepWith,hload]
    · simp [State.written,State.pushes,hdone]
    · simp [State.copied,State.pops,hdone]
  | empty r hpc hempty =>
    obtain rfl : c = .loaded r := hpc
    obtain ⟨memory,hload⟩ := h.load_writeIndex .consumer orders.checkEmpty
    have hdone := Memory.load_done hload
    refine ⟨.checkEmpty (m.done (.stores .writeIndex)),⟨memory,p,.idle⟩,?_,h.load hload ⟨rfl,rfl⟩ _ _ ?_ ?_⟩
    · replace hempty : r = writeIndex := hempty
      simp [stepWith,hload,hempty]
    · simp [State.written,State.pushes,hdone]
    · simp [State.copied,State.pops,hdone]
  | items r hpc hitems =>
    obtain rfl : c = .loaded r := hpc
    obtain ⟨memory,hload⟩ := h.load_writeIndex .consumer orders.checkEmpty
    have hdone := Memory.load_done hload
    refine ⟨.checkEmpty (m.done (.stores .writeIndex)),⟨memory,p,.checked r⟩,?_,h.load hload ⟨rfl,rfl⟩ _ _ ?_ ?_⟩
    · replace hitems : r ≠ writeIndex := hitems
      simp [stepWith,hload,hitems]
    · simp [State.written,State.pushes,hdone]
    · simp [State.copied,State.pops,hdone]
  | readData r hpc =>
    obtain rfl : c = .checked r := hpc
    obtain ⟨rfl,_⟩ : r = readIndex ∧ _ := hc
    obtain ⟨⟨item,memory⟩,hread⟩ := Option.isSome_iff_exists.mp (hfree.read r rfl)
    have hplain : m.plain = data := h.plain
    have hitem : item = data r := by
      obtain ⟨_,rfl,_⟩ := Memory.read_eq_some_iff.mp hread
      rw [hplain]
    subst hitem
    refine ⟨.readData,⟨memory,p,.copied r (data r)⟩,?_,?_⟩
    · simp [stepWith,hread]
    · have hsound := h.sound.read hread
      have hr : r = m.done (.stores .readIndex) % capacity := h.readIndex
      have hreads := fun n => advance_accesses (t := .consumer) (h.reads n)
      obtain ⟨_,_,rfl⟩ := Memory.read_eq_some_iff.mp hread
      refine ⟨hsound,?_,?_,?_,?_,?_,rfl,rfl,?_,?_,?_,?_,?_,?_⟩
      · simpa [State.pushes] using h.writeIndex
      · simpa [State.pops] using h.readIndex
      · simpa [State.pushes] using h.writeValue
      · simpa [State.pops] using h.readValue
      · simpa using hplain
      · simpa [State.pushes,Memory.advance_views_of_ne] using h.ownPushes
      · simpa [State.pops,Memory.advance_views_self] using h.ownPops
      · simpa [State.written,State.pushes] using h.writes
      · simpa [State.copied,State.pops,Side.access,← hr] using hreads
      · simpa [State.pushes,pushedItems_append,pushedItems] using h.pushes
      · simpa [State.pops,poppedItems_append,poppedItems] using h.pops
  | storeRead r item hpc =>
    obtain rfl : c = .copied r item := hpc
    obtain ⟨rfl,_⟩ : r = readIndex ∧ _ := hc
    have hr : r = m.done (.stores .readIndex) % capacity := h.readIndex
    obtain ⟨memory,hstore⟩ : ∃ memory, m.store .consumer orders.storeRead .readIndex ((r + 1) % capacity) = some memory :=
      ⟨_,Memory.store_eq_some_iff.mpr ⟨h.ownPops,rfl⟩⟩
    refine ⟨.storeRead,⟨memory,p,.idle⟩,?_,?_⟩
    · simp [stepWith,hstore]
    · have hsound := h.sound.store hstore
      obtain ⟨_,rfl⟩ := Memory.store_eq_some_iff.mp hstore
      refine ⟨hsound,?_,?_,?_,?_,?_,rfl,rfl,?_,?_,?_,?_,?_,?_⟩
      · simpa [State.pushes] using h.writeIndex
      · simp [State.pops,hr]
      · simpa [State.pushes,Memory.addStore] using h.writeValue
      · simp [State.pops]
      · simpa using h.plain
      · simpa [State.pushes,Memory.advance_views_of_ne] using h.ownPushes
      · simp [State.pops,Memory.advance_views_self]
      · simpa [State.written,State.pushes] using h.writes
      · simpa [State.copied,State.pops] using h.reads
      · simpa [State.pushes,pushedItems_append,pushedItems] using h.pushes
      · simpa [State.pops,poppedItems_append,poppedItems] using h.pops

end Latest

section Rounds
variable {capacity : ℕ} (hcap : 2 ≤ capacity)
include hcap

/-- The ring of atomic steps after `k` rounds of one push and one pop. -/
lemma rounds (data : ℕ → T) (item : T) (k : ℕ) : ∃ actions es d,
    run (SPSCQueue.step capacity) (SPSCQueue.init data) actions = some (es,⟨k % capacity,k % capacity,d,.idle,.idle⟩) ∧
      (pushedItems es).length = k ∧ (poppedItems es).length = k := by
  induction k with
  | zero => exact ⟨[],[],data,by simp [SPSCQueue.init],rfl,rfl⟩
  | succ k ih =>
    obtain ⟨actions,es,d,hrun,hpushed,hpopped⟩ := ih
    have hne : (k + 1) % capacity ≠ k % capacity := (mod_ne_mod (by omega : k < k + 1) (by omega)).symm
    have hround : run (SPSCQueue.step capacity) ⟨k % capacity,k % capacity,d,.idle,.idle⟩
        [.loadWrite item,.checkFull,.writeData,.storeWrite,.loadRead,.checkEmpty,.readData,.storeRead] =
          some ([.silent,.silent,.silent,.pushed item,.silent,.silent,.silent,.popped item],
            ⟨(k + 1) % capacity,(k + 1) % capacity,Function.update d (k % capacity) item,.idle,.idle⟩) := by
      simp [run,SPSCQueue.step,hne,hne.symm]
    refine ⟨_,_,_,run_append_eq_some.mpr ⟨_,es,_,hrun,hround,rfl⟩,?_,?_⟩
    · simp [pushedItems_append,pushedItems,hpushed]
    · simp [poppedItems_append,poppedItems,hpopped]

/-- The consumer before the first item. -/
lemma run_first_read (data : ℕ → T) (item : T) : ∃ actions es q,
    run (SPSCQueue.step capacity) (SPSCQueue.init data) actions = some (es,q) ∧ q.consumer = .checked 0 ∧
      0 < (pushedItems es).length := by
  have hne : 1 % capacity ≠ 0 := by rw [Nat.mod_eq_of_lt (by omega)]; exact Nat.one_ne_zero
  refine ⟨[.loadWrite item,.checkFull,.writeData,.storeWrite,.loadRead,.checkEmpty],
    [.silent,.silent,.silent,.pushed item,.silent,.silent],
    ⟨1 % capacity,0,Function.update data 0 item,.idle,.checked 0⟩,?_,rfl,Nat.one_pos⟩
  simp [run,SPSCQueue.step,SPSCQueue.init,hne,hne.symm]

/-- The producer before the first slot again. -/
lemma run_second_write (data : ℕ → T) (item : T) : ∃ actions es q,
    run (SPSCQueue.step capacity) (SPSCQueue.init data) actions = some (es,q) ∧ q.producer = .checked item 0 ∧
      0 < (poppedItems es).length := by
  obtain ⟨actions,es,d,hrun,_,hpopped⟩ := rounds hcap data item capacity
  have hne : 1 % capacity ≠ 0 := by rw [Nat.mod_eq_of_lt (by omega)]; exact Nat.one_ne_zero
  have hcheck : run (SPSCQueue.step capacity) ⟨capacity % capacity,capacity % capacity,d,.idle,.idle⟩
      [.loadWrite item,.checkFull] =
        some ([.silent,.silent],⟨capacity % capacity,capacity % capacity,d,.checked item 0,.idle⟩) := by
    simp [run,SPSCQueue.step,hne]
  refine ⟨_,_,_,run_append_eq_some.mpr ⟨_,es,_,hrun,hcheck,rfl⟩,rfl,?_⟩
  rw [poppedItems_append,List.length_append,hpopped]
  omega

end Rounds

section Needed
variable {capacity : ℕ} {orders : Orders} {data : ℕ → T}

/-- All interleavings are possible while there are no races. -/
theorem latest_of_run (hcap : 2 ≤ capacity)
    (hfree : ∀ actions es s, run (stepWith orders capacity) (init data) actions = some (es,s) → NoRace s)
    {actions : List (SPSCQueue.Action T)} {es : List (Event T)} {q : SPSCQueue.State T}
    (hrun : run (SPSCQueue.step capacity) (SPSCQueue.init data) actions = some (es,q)) :
    ∃ actions s, run (stepWith orders capacity) (init data) actions = some (es,s) ∧ Latest capacity es s q := by
  suffices hboth : (∃ base queue, Holds capacity base queue q) ∧
      ∃ actions s, run (stepWith orders capacity) (init data) actions = some (es,s) ∧ Latest capacity es s q from hboth.2
  apply run_history_invariant
    (I := fun es q => (∃ base queue, Holds capacity base queue q) ∧
      ∃ actions s, run (stepWith orders capacity) (init data) actions = some (es,s) ∧ Latest capacity es s q)
    ?_ ⟨⟨0,[],holds_init hcap data⟩,[],_,rfl,Latest.init capacity data⟩ hrun
  rintro es q a e q' ⟨⟨base,queue,hholds⟩,actions,s,hrun,hlatest⟩ hstep
  obtain ⟨base',queue',_,hholds'⟩ := hholds.step hstep
  obtain ⟨a',s',hstep',hlatest'⟩ := hlatest.step hholds (hfree actions es s hrun) hstep
  exact ⟨⟨base',queue',hholds'⟩,_,s',run_concat hrun hstep',hlatest'⟩

theorem ignorant_of_run {t : Side} (hmissing : orders.load t = .acquire → orders.store t ≠ .release)
    {actions : List (Action T)} {es : List (Event T)} {s : State T}
    (hrun : run (stepWith orders capacity) (init data) actions = some (es,s)) :
    Ignorant (orders.load t) t s.memory :=
  run_invariant (I := fun s => Ignorant (orders.load t) t s.memory) (fun _ _ _ _ h hstep => h.step hmissing hstep)
    ⟨fun _ => rfl,fun _ _ _ => rfl⟩ hrun

lemma one_le_visits {k : ℕ} (hk : 0 < k) : 1 ≤ visits capacity k 0 := by
  calc 1 = visits capacity 1 0 := by simp [visits,Nat.count_succ]
    _ ≤ visits capacity k 0 := Nat.count_monotone _ hk

/-- An order that is missing lets a side access a slot without knowing of the other side's access. -/
lemma orders_needed (hcap : 2 ≤ capacity)
    (hfree : ∀ actions es s, run (stepWith orders capacity) (init data) actions = some (es,s) → NoRace s) (t : Side) :
    orders.load t = .acquire ∧ orders.store t = .release := by
  by_contra hboth
  have hmissing : orders.load t = .acquire → orders.store t ≠ .release := fun hload hstore => hboth ⟨hload,hstore⟩
  cases t with
  | producer =>
    obtain ⟨_,es,q,hrun,hpc,hpushed⟩ := run_first_read hcap data (data 0)
    obtain ⟨actions,s,hrun',hlatest⟩ := latest_of_run hcap hfree hrun
    have hunseen : s.memory.views .consumer (.writes 0) = 0 := (ignorant_of_run hmissing hrun').unseen 0
    have hwritten : 1 ≤ s.memory.done (.writes 0) := by
      rw [hlatest.writes]
      exact one_le_visits (by rw [← hlatest.pushes] at hpushed; exact hpushed.trans_le Ordered.pushes_le_written)
    obtain ⟨⟨item,memory⟩,hread⟩ :=
      Option.isSome_iff_exists.mp ((hfree _ _ _ hrun').read 0 (hlatest.consumer.trans hpc))
    have hknown := (Memory.read_eq_some_iff.mp hread).1
    omega
  | consumer =>
    obtain ⟨_,es,q,hrun,hpc,hpopped⟩ := run_second_write hcap data (data 0)
    obtain ⟨actions,s,hrun',hlatest⟩ := latest_of_run hcap hfree hrun
    have hunseen : s.memory.views .producer (.reads 0 .consumer) = 0 := (ignorant_of_run hmissing hrun').unseen 0
    have hread : 1 ≤ s.memory.done (.reads 0 .consumer) := by
      rw [hlatest.reads]
      exact one_le_visits (by rw [← hlatest.pops] at hpopped; exact hpopped.trans_le Ordered.pops_le_copied)
    obtain ⟨memory,hwrite⟩ :=
      Option.isSome_iff_exists.mp ((hfree _ _ _ hrun').write _ 0 (hlatest.producer.trans hpc))
    have hknown := (Memory.write_eq_some_iff.mp hwrite).1.2 .consumer
    omega

end Needed

/-- Of the orders relaxed, acquire and release only those of `push` and `pop` are free of data races:
none can be weakened. -/
theorem race_free_iff (capacity : ℕ) (hcap : 2 ≤ capacity) (data : ℕ → T) (given : Orders) :
    (∀ actions es s, run (stepWith given capacity) (init data) actions = some (es,s) → NoRace s) ↔ given = orders := by
  constructor
  · intro hfree
    obtain ⟨checkEmpty,storeWrite⟩ := orders_needed hcap hfree .producer
    obtain ⟨checkFull,storeRead⟩ := orders_needed hcap hfree .consumer
    cases given
    simp_all [Orders.load,Orders.store,orders]
  · rintro rfl actions es s (hrun : run (step capacity) (init data) actions = some (es,s))
    have h := (follows_of_run (by omega : 0 < capacity) hrun).ordered
    exact ⟨fun item w hpc => h.write_isSome hpc,fun r hpc => h.read_isSome hpc⟩

/-- With a relaxed store of the write index the consumer races for the first item. -/
theorem race_free_iff_relaxed_store :
    ¬ ∀ actions es s, run (stepWith { orders with storeWrite := .relaxed } 2) (init fun _ => (0 : ℕ)) actions = some (es,s) →
      NoRace s := by
  intro hfree
  have hgiven := (race_free_iff 2 (by decide) (fun _ => 0) _).mp hfree
  exact absurd (congrArg Orders.storeWrite hgiven) (by decide)

end TickToTrade.SPSCQueue.Weak
