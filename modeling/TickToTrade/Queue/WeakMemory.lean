import Mathlib.Data.Nat.Count
import Mathlib.Data.Finset.Insert
import TickToTrade.Library.ReleaseAcquire
import TickToTrade.Queue.Linearizable

/-! The ring with the memory orders it asks for. A load of the other side's index may return an old
store, and an access to a slot that the other side's access is not known to precede is a data race.
The orders suffice: no schedule and no choice of old stores leads to a race, and what is pushed and
popped is what an interleaving of atomic steps pushes and pops. -/
namespace TickToTrade.SPSCQueue.Weak
open ReleaseAcquire

variable {T : Type*}

inductive Index
  | writeIndex
  | readIndex
  deriving DecidableEq, Repr

inductive Side
  | producer
  | consumer
  deriving DecidableEq, Repr

instance : Fintype Side := ⟨{.producer,.consumer},fun t => by cases t <;> simp⟩

structure State (T : Type*) where
  memory : Memory Index ℕ Side ℕ T
  producer : ProducerPc T
  consumer : ConsumerPc T

def init (data : ℕ → T) : State T := ⟨.init (fun _ => 0) data,.idle,.idle⟩

/-- A load says which store it returns. -/
inductive Action (T : Type*)
  | loadWrite (item : T) (i : ℕ)
  | checkFull (i : ℕ)
  | writeData
  | storeWrite
  | loadRead (i : ℕ)
  | checkEmpty (i : ℕ)
  | readData
  | storeRead

/-- The memory orders of the accesses that are not relaxed. -/
structure Orders where
  checkFull : MemoryOrder
  storeWrite : MemoryOrder
  checkEmpty : MemoryOrder
  storeRead : MemoryOrder

def orders : Orders where
  checkFull := .acquire
  storeWrite := .release
  checkEmpty := .acquire
  storeRead := .release

/-- The steps of `push` and `pop`; only the orders vary. -/
def stepWith (orders : Orders) (capacity : ℕ) (s : State T) : Action T → Option (Event T × State T)
  | .loadWrite item i =>
    match s.producer with
    | .idle => do
      let (w,memory) ← s.memory.load .producer .relaxed .writeIndex i
      some (.silent,{ s with memory := memory, producer := .loaded item w })
    | _ => none
  | .checkFull i =>
    match s.producer with
    | .loaded item w => do
      let (r,memory) ← s.memory.load .producer orders.checkFull .readIndex i
      if (w + 1) % capacity = r then some (.pushFull,{ s with memory := memory, producer := .idle })
      else some (.silent,{ s with memory := memory, producer := .checked item w })
    | _ => none
  | .writeData =>
    match s.producer with
    | .checked item w => do
      let memory ← s.memory.write .producer w item
      some (.silent,{ s with memory := memory, producer := .written item w })
    | _ => none
  | .storeWrite =>
    match s.producer with
    | .written item w => do
      let memory ← s.memory.store .producer orders.storeWrite .writeIndex ((w + 1) % capacity)
      some (.pushed item,{ s with memory := memory, producer := .idle })
    | _ => none
  | .loadRead i =>
    match s.consumer with
    | .idle => do
      let (r,memory) ← s.memory.load .consumer .relaxed .readIndex i
      some (.silent,{ s with memory := memory, consumer := .loaded r })
    | _ => none
  | .checkEmpty i =>
    match s.consumer with
    | .loaded r => do
      let (w,memory) ← s.memory.load .consumer orders.checkEmpty .writeIndex i
      if r = w then some (.popEmpty,{ s with memory := memory, consumer := .idle })
      else some (.silent,{ s with memory := memory, consumer := .checked r })
    | _ => none
  | .readData =>
    match s.consumer with
    | .checked r => do
      let (item,memory) ← s.memory.read .consumer r
      some (.silent,{ s with memory := memory, consumer := .copied r item })
    | _ => none
  | .storeRead =>
    match s.consumer with
    | .copied r item => do
      let memory ← s.memory.store .consumer orders.storeRead .readIndex ((r + 1) % capacity)
      some (.popped item,{ s with memory := memory, consumer := .idle })
    | _ => none

/-- Everything one step can do. -/
inductive Effect (orders : Orders) (capacity : ℕ) (s : State T) : Action T → Event T → State T → Prop
  | loadWrite {item i w memory} (at_pc : s.producer = .idle)
      (loads : s.memory.load .producer .relaxed .writeIndex i = some (w,memory)) :
      Effect orders capacity s (.loadWrite item i) .silent { s with memory := memory, producer := .loaded item w }
  | full {item w i r memory} (at_pc : s.producer = .loaded item w)
      (loads : s.memory.load .producer orders.checkFull .readIndex i = some (r,memory)) (full : (w + 1) % capacity = r) :
      Effect orders capacity s (.checkFull i) .pushFull { s with memory := memory, producer := .idle }
  | room {item w i r memory} (at_pc : s.producer = .loaded item w)
      (loads : s.memory.load .producer orders.checkFull .readIndex i = some (r,memory)) (room : (w + 1) % capacity ≠ r) :
      Effect orders capacity s (.checkFull i) .silent { s with memory := memory, producer := .checked item w }
  | writeData {item w memory} (at_pc : s.producer = .checked item w)
      (writes : s.memory.write .producer w item = some memory) :
      Effect orders capacity s .writeData .silent { s with memory := memory, producer := .written item w }
  | storeWrite {item w memory} (at_pc : s.producer = .written item w)
      (stores : s.memory.store .producer orders.storeWrite .writeIndex ((w + 1) % capacity) = some memory) :
      Effect orders capacity s .storeWrite (.pushed item) { s with memory := memory, producer := .idle }
  | loadRead {i r memory} (at_pc : s.consumer = .idle)
      (loads : s.memory.load .consumer .relaxed .readIndex i = some (r,memory)) :
      Effect orders capacity s (.loadRead i) .silent { s with memory := memory, consumer := .loaded r }
  | empty {r i w memory} (at_pc : s.consumer = .loaded r)
      (loads : s.memory.load .consumer orders.checkEmpty .writeIndex i = some (w,memory)) (empty : r = w) :
      Effect orders capacity s (.checkEmpty i) .popEmpty { s with memory := memory, consumer := .idle }
  | items {r i w memory} (at_pc : s.consumer = .loaded r)
      (loads : s.memory.load .consumer orders.checkEmpty .writeIndex i = some (w,memory)) (items : r ≠ w) :
      Effect orders capacity s (.checkEmpty i) .silent { s with memory := memory, consumer := .checked r }
  | readData {r item memory} (at_pc : s.consumer = .checked r)
      (reads : s.memory.read .consumer r = some (item,memory)) :
      Effect orders capacity s .readData .silent { s with memory := memory, consumer := .copied r item }
  | storeRead {r item memory} (at_pc : s.consumer = .copied r item)
      (stores : s.memory.store .consumer orders.storeRead .readIndex ((r + 1) % capacity) = some memory) :
      Effect orders capacity s .storeRead (.popped item) { s with memory := memory, consumer := .idle }

theorem step_cases {orders : Orders} {capacity : ℕ} {s s' : State T} {a : Action T} {e : Event T}
    (h : stepWith orders capacity s a = some (e,s')) : Effect orders capacity s a e s' := by
  cases a with
  | loadWrite item i =>
    simp only [stepWith] at h
    split at h
    · rename_i hpc
      obtain ⟨⟨w,memory⟩,hload,h⟩ := Option.bind_eq_some_iff.mp h
      obtain ⟨rfl,rfl⟩ := Prod.mk.inj (Option.some.inj h)
      exact .loadWrite hpc hload
    · contradiction
  | checkFull i =>
    simp only [stepWith] at h
    split at h
    · rename_i hpc
      obtain ⟨⟨r,memory⟩,hload,h⟩ := Option.bind_eq_some_iff.mp h
      split at h
      · rename_i hfull
        obtain ⟨rfl,rfl⟩ := Prod.mk.inj (Option.some.inj h)
        exact .full hpc hload hfull
      · rename_i hroom
        obtain ⟨rfl,rfl⟩ := Prod.mk.inj (Option.some.inj h)
        exact .room hpc hload hroom
    · contradiction
  | writeData =>
    simp only [stepWith] at h
    split at h
    · rename_i hpc
      obtain ⟨memory,hwrite,h⟩ := Option.bind_eq_some_iff.mp h
      obtain ⟨rfl,rfl⟩ := Prod.mk.inj (Option.some.inj h)
      exact .writeData hpc hwrite
    · contradiction
  | storeWrite =>
    simp only [stepWith] at h
    split at h
    · rename_i hpc
      obtain ⟨memory,hstore,h⟩ := Option.bind_eq_some_iff.mp h
      obtain ⟨rfl,rfl⟩ := Prod.mk.inj (Option.some.inj h)
      exact .storeWrite hpc hstore
    · contradiction
  | loadRead i =>
    simp only [stepWith] at h
    split at h
    · rename_i hpc
      obtain ⟨⟨r,memory⟩,hload,h⟩ := Option.bind_eq_some_iff.mp h
      obtain ⟨rfl,rfl⟩ := Prod.mk.inj (Option.some.inj h)
      exact .loadRead hpc hload
    · contradiction
  | checkEmpty i =>
    simp only [stepWith] at h
    split at h
    · rename_i hpc
      obtain ⟨⟨w,memory⟩,hload,h⟩ := Option.bind_eq_some_iff.mp h
      split at h
      · rename_i hempty
        obtain ⟨rfl,rfl⟩ := Prod.mk.inj (Option.some.inj h)
        exact .empty hpc hload hempty
      · rename_i hitems
        obtain ⟨rfl,rfl⟩ := Prod.mk.inj (Option.some.inj h)
        exact .items hpc hload hitems
    · contradiction
  | readData =>
    simp only [stepWith] at h
    split at h
    · rename_i hpc
      obtain ⟨⟨item,memory⟩,hread,h⟩ := Option.bind_eq_some_iff.mp h
      obtain ⟨rfl,rfl⟩ := Prod.mk.inj (Option.some.inj h)
      exact .readData hpc hread
    · contradiction
  | storeRead =>
    simp only [stepWith] at h
    split at h
    · rename_i hpc
      obtain ⟨memory,hstore,h⟩ := Option.bind_eq_some_iff.mp h
      obtain ⟨rfl,rfl⟩ := Prod.mk.inj (Option.some.inj h)
      exact .storeRead hpc hstore
    · contradiction

/-- The ring as it is. -/
def step (capacity : ℕ) (s : State T) : Action T → Option (Event T × State T) := stepWith orders capacity s

namespace Side

def other : Side → Side
  | .producer => .consumer
  | .consumer => .producer

/-- The index that a side stores to. -/
def index : Side → Index
  | .producer => .writeIndex
  | .consumer => .readIndex

/-- How a side accesses a slot. -/
def access : Side → ℕ → Counter Index ℕ Side
  | .producer, n => .writes n
  | .consumer, n => .reads n .consumer

@[simp] lemma access_ne_stores (t : Side) (n : ℕ) (a : Index) : t.access n ≠ .stores a := by cases t <;> simp [access]

@[simp] lemma stores_ne_access (t : Side) (n : ℕ) (a : Index) : .stores a ≠ t.access n := (t.access_ne_stores n a).symm

@[simp] lemma access_inj (t : Side) {n k : ℕ} : t.access n = t.access k ↔ n = k := by cases t <;> simp [access]

@[simp] lemma access_ne_other (t : Side) (n k : ℕ) : t.access n ≠ t.other.access k := by cases t <;> simp [access,other]

@[simp] lemma other_ne (t : Side) : t.other ≠ t := by cases t <;> simp [other]

@[simp] lemma index_ne_other (t : Side) : t.index ≠ t.other.index := by cases t <;> simp [other,index]

end Side

/-- How often the first `k` items pass through slot `n`. -/
def visits (capacity k n : ℕ) : ℕ := Nat.count (fun j => j % capacity = n) k

section Visits
variable {capacity j k n : ℕ}

lemma visits_succ (capacity k n : ℕ) :
    visits capacity (k + 1) n = visits capacity k n + if k % capacity = n then 1 else 0 := Nat.count_succ _ _

lemma visits_eq_of_forall (hle : j ≤ k) (h : ∀ i, j ≤ i → i < k → i % capacity ≠ n) :
    visits capacity k n = visits capacity j n := by
  induction k,hle using Nat.le_induction with
  | base => rfl
  | succ k hk ih =>
    rw [visits_succ,if_neg (h k hk (Nat.lt_succ_self k)),Nat.add_zero]
    exact ih fun i hi hik => h i hi (Nat.lt_succ_of_lt hik)

/-- No item passes through a location behind the slots. -/
lemma visits_eq_zero (hcap : 0 < capacity) (hn : capacity ≤ n) : visits capacity k n = 0 := by
  refine Nat.count_of_forall_not fun j _ hj => ?_
  have hlt := Nat.mod_lt j hcap
  omega

lemma mod_ne_mod (hlt : j < k) (hround : k < j + capacity) : j % capacity ≠ k % capacity := by
  intro heq
  have hoffset : (j + 0) % capacity = (j + (k - j)) % capacity := by rwa [Nat.add_zero,Nat.add_sub_cancel' (by omega)]
  have := Probing.offset_injective (by omega) (by omega) hoffset
  omega

end Visits

/-- What holds of one side, which has begun to access the slots of its first `begun` items: who has
seen that many stores of its index knows of that many accesses. -/
structure Half (capacity : ℕ) (t : Side) (begun : ℕ) (m : Memory Index ℕ Side ℕ T) : Prop where
  values : ∀ k ≤ m.done (.stores t.index), (m.stores t.index k).value = k % capacity
  released : ∀ k ≤ m.done (.stores t.index), ∀ n, visits capacity k n ≤ (m.stores t.index k).view (t.access n)
  accesses : ∀ n < capacity, m.done (t.access n) = visits capacity begun n
  stored : m.views t (.stores t.index) = m.done (.stores t.index)
  accessed : ∀ n, m.views t (t.access n) = m.done (t.access n)
  seen : ∀ n, visits capacity (m.views t.other (.stores t.index)) n ≤ m.views t.other (t.access n)

section Half
variable {capacity begun i : ℕ} {t : Side} {m m' : Memory Index ℕ Side ℕ T} {order : MemoryOrder} {v : ℕ}

lemma half_init (data : ℕ → T) (t : Side) : Half capacity t 0 (.init (fun _ => 0) data) where
  values k hk := by
    obtain rfl : k = 0 := Nat.le_zero.mp hk
    exact (Nat.zero_mod _).symm
  released k hk n := by
    obtain rfl : k = 0 := Nat.le_zero.mp hk
    exact Nat.zero_le _
  accesses n _ := rfl
  stored := rfl
  accessed n := rfl
  seen n := Nat.zero_le _

/-- The count of accesses after one to the next slot. -/
lemma advance_accesses {n : ℕ} (h : m.done (t.access n) = visits capacity begun n) :
    (m.advance t (t.access (begun % capacity))).done (t.access n) = visits capacity (begun + 1) n := by
  rw [visits_succ,Memory.advance_done,Function.update_apply]
  by_cases hn : n = begun % capacity
  · subst hn
    simp [h]
  · simp [hn,Ne.symm hn,h]

/-- A load, if the other side acquires whenever it looks at the index. -/
lemma Half.load (h : Half capacity t begun m) (hsound : m.Sound) {u : Side} {a : Index}
    (hother : u = t.other → a = t.index ∧ order = .acquire ∨ a ≠ t.index ∧ order = .relaxed)
    (hload : m.load u order a i = some (v,m')) : Half capacity t begun m' := by
  obtain ⟨⟨_,hi⟩,_⟩ := Memory.load_eq_some_iff.mp hload
  have hown : ∀ c, m.views t c = m.done c → m'.views t c = m'.done c := by
    intro c hc
    by_cases hu : t = u
    · subst hu
      exact hsound.load_own hc hload
    · rw [Memory.load_views_of_ne hload hu,Memory.load_done hload,hc]
  refine ⟨?_,?_,?_,hown _ h.stored,fun n => hown _ (h.accessed n),fun n => ?_⟩
  · rw [Memory.load_done hload,Memory.load_stores hload]
    exact h.values
  · rw [Memory.load_done hload,Memory.load_stores hload]
    exact h.released
  · rw [Memory.load_done hload]
    exact h.accesses
  · by_cases hu : t.other = u
    · subst hu
      rw [Memory.load_views_self hload]
      rcases hother rfl with ⟨rfl,rfl⟩ | ⟨ha,rfl⟩
      · rw [Memory.loadView_self]
        exact (h.released i hi n).trans (Memory.le_loadView_acquire (t.access_ne_stores n _))
      · simpa [Memory.loadView,ha.symm] using h.seen n
    · rw [Memory.load_views_of_ne hload hu]
      exact h.seen n

/-- An access to the next slot. -/
lemma Half.access (h : Half capacity t begun m) : Half capacity t (begun + 1) (m.advance t (t.access (begun % capacity))) := by
  refine ⟨?_,?_,fun n hn => advance_accesses (h.accesses n hn),?_,fun n => ?_,fun n => ?_⟩
  · simpa using h.values
  · simpa using h.released
  · simpa [Memory.advance_views_self] using h.stored
  · rw [Memory.advance_views_self,Memory.advance_done,Function.update_apply,Function.update_apply,h.accessed]
  · rw [Memory.advance_views_of_ne t.other_ne]
    exact h.seen n

/-- What the other side does to its own index and slots. -/
lemma Half.advance_other (h : Half capacity t begun m) {c : Counter Index ℕ Side} (hindex : c ≠ .stores t.index)
    (haccess : ∀ n, c ≠ t.access n) : Half capacity t begun (m.advance t.other c) := by
  refine ⟨?_,?_,fun n hn => ?_,?_,fun n => ?_,fun n => ?_⟩
  · simpa [hindex.symm] using h.values
  · simpa [hindex.symm] using h.released
  · simpa [(haccess n).symm] using h.accesses n hn
  · simpa [Memory.advance_views_of_ne t.other_ne.symm,hindex.symm] using h.stored
  · simpa [Memory.advance_views_of_ne t.other_ne.symm,(haccess n).symm] using h.accessed n
  · simpa [Memory.advance_views_self,hindex.symm,(haccess n).symm] using h.seen n

/-- The store that lets go of the slot. -/
lemma Half.store (h : Half capacity t begun m) (hcap : 0 < capacity) (hbegun : begun = m.done (.stores t.index) + 1)
    (hstore : m.store t .release t.index (begun % capacity) = some m') : Half capacity t begun m' := by
  obtain ⟨_,rfl⟩ := Memory.store_eq_some_iff.mp hstore
  refine ⟨fun k hk => ?_,fun k hk n => ?_,fun n hn => ?_,?_,fun n => ?_,fun n => ?_⟩
  · replace hk : k ≤ (m.advance t (.stores t.index)).done (.stores t.index) := hk
    rcases Memory.le_advance_iff.mp hk with hold | ⟨_,rfl⟩
    · simpa only [Memory.addStore_of_le hold] using h.values k hold
    · simp only [Memory.addStore_self,hbegun]
  · replace hk : k ≤ (m.advance t (.stores t.index)).done (.stores t.index) := hk
    rcases Memory.le_advance_iff.mp hk with hold | ⟨_,rfl⟩
    · simpa only [Memory.addStore_of_le hold] using h.released k hold n
    · have hknown : visits capacity begun n ≤ (m.advance t (.stores t.index)).views t (t.access n) := by
        rw [Memory.advance_views_self,Function.update_of_ne (t.access_ne_stores n _),h.accessed]
        by_cases hn : n < capacity
        · exact (h.accesses n hn).ge
        · rw [visits_eq_zero hcap (Nat.le_of_not_lt hn)]
          exact Nat.zero_le _
      rw [hbegun] at hknown
      simpa only [Memory.addStore_self,Memory.storeView,if_true] using hknown
  · simpa using h.accesses n hn
  · simp [Memory.advance_views_self]
  · simpa [Memory.advance_views_self] using h.accessed n
  · simpa [Memory.advance_views_of_ne t.other_ne] using h.seen n

lemma Half.store_other (h : Half capacity t begun m) (hstore : m.store t.other .release t.other.index v = some m') :
    Half capacity t begun m' := by
  obtain ⟨_,rfl⟩ := Memory.store_eq_some_iff.mp hstore
  have hindex : Counter.stores t.other.index ≠ (.stores t.index : Counter Index ℕ Side) := by simp [t.index_ne_other.symm]
  obtain ⟨hvalues,hreleased,haccesses,hstored,haccessed,hseen⟩ :=
    h.advance_other hindex fun n => t.stores_ne_access n _
  refine ⟨?_,?_,haccesses,hstored,haccessed,hseen⟩
  · simpa [Memory.addStore] using hvalues
  · simpa [Memory.addStore] using hreleased

lemma Half.setPlain (h : Half capacity t begun m) (plain : ℕ → T) : Half capacity t begun { m with plain := plain } :=
  ⟨h.values,h.released,h.accesses,h.stored,h.accessed,h.seen⟩

end Half

section Counts
variable (s : State T)

/-- Stores to an index are the calls that have returned true. -/
def State.pushes : ℕ := s.memory.done (.stores .writeIndex)

def State.pops : ℕ := s.memory.done (.stores .readIndex)

/-- What the producer has seen of the pops. -/
def State.seenPops : ℕ := s.memory.views .producer (.stores .readIndex)

def State.seenPushes : ℕ := s.memory.views .consumer (.stores .writeIndex)

/-- Items that have been written to their slots. -/
def State.written : ℕ :=
  match s.producer with
  | .written .. => s.pushes + 1
  | _ => s.pushes

def State.copied : ℕ :=
  match s.consumer with
  | .copied .. => s.pops + 1
  | _ => s.pops

/-- What the producer knows inside `push`. -/
def State.KnowsPush (capacity : ℕ) : Prop :=
  match s.producer with
  | .idle => True
  | .loaded _ w => w = s.pushes % capacity
  | .checked _ w => w = s.pushes % capacity ∧ s.pushes + 1 < s.seenPops + capacity
  | .written _ w => w = s.pushes % capacity ∧ s.pushes + 1 < s.seenPops + capacity

/-- What the consumer knows inside `pop`. -/
def State.KnowsPop (capacity : ℕ) : Prop :=
  match s.consumer with
  | .idle => True
  | .loaded r => r = s.pops % capacity
  | .checked r => r = s.pops % capacity ∧ s.pops < s.seenPushes
  | .copied r _ => r = s.pops % capacity ∧ s.pops < s.seenPushes

end Counts

/-- The invariant: each side has seen enough of the other for what it does. -/
structure Ordered (capacity : ℕ) (s : State T) : Prop where
  sound : s.memory.Sound
  producer : Half capacity .producer s.written s.memory
  consumer : Half capacity .consumer s.copied s.memory
  unread : ∀ n, s.memory.done (.reads n .producer) = 0
  items : s.pops ≤ s.seenPushes
  room : s.pushes < s.seenPops + capacity
  push : s.KnowsPush capacity
  pop : s.KnowsPop capacity

lemma ordered_init {capacity : ℕ} (hcap : 0 < capacity) (data : ℕ → T) : Ordered capacity (init data) where
  sound := Memory.sound_init _ _
  producer := half_init data .producer
  consumer := half_init data .consumer
  unread _ := rfl
  items := Nat.le_refl 0
  room := hcap.trans_le (Nat.le_add_left _ _)
  push := trivial
  pop := trivial

namespace Ordered
variable {capacity i v : ℕ} {s s' : State T} {memory : Memory Index ℕ Side ℕ T} {u : Side} {order : MemoryOrder}
  {a : Index}

lemma seenPops_le (h : Ordered capacity s) : s.seenPops ≤ s.pops := h.sound.views .producer _

lemma seenPushes_le (h : Ordered capacity s) : s.seenPushes ≤ s.pushes := h.sound.views .consumer _

/-- No slot is read before its item is pushed. -/
lemma copied_le (h : Ordered capacity s) : s.copied ≤ s.pushes := by
  have hitems := h.items
  have hseen := h.seenPushes_le
  have hpop := h.pop
  unfold State.copied
  unfold State.KnowsPop at hpop
  split
  · rename_i hpc
    rw [hpc] at hpop
    exact hpop.2.trans_le hseen
  · exact hitems.trans hseen

/-- No slot is written before the item of the last round is popped. -/
lemma written_lt (h : Ordered capacity s) : s.written < s.pops + capacity := by
  have hroom := h.room
  have hseen := h.seenPops_le
  have hpush := h.push
  unfold State.written
  unfold State.KnowsPush at hpush
  split
  · rename_i hpc
    rw [hpc] at hpush
    omega
  · omega

lemma pops_le_copied : s.pops ≤ s.copied := by
  unfold State.copied
  split <;> omega

lemma pushes_le_written : s.pushes ≤ s.written := by
  unfold State.written
  split <;> omega

lemma capacity_pos (h : Ordered capacity s) : 0 < capacity := by
  have hcopied := h.copied_le
  have hwritten := h.written_lt
  have hpops := pops_le_copied (s := s)
  have hpushes := pushes_le_written (s := s)
  omega

/-- The producer knows that its slot is free of reads: no data race. -/
theorem write_isSome (h : Ordered capacity s) {item : T} {w : ℕ} (hpc : s.producer = .checked item w) :
    (s.memory.write .producer w item).isSome := by
  have hpush := h.push
  rw [State.KnowsPush,hpc] at hpush
  obtain ⟨rfl,hroom⟩ := hpush
  have hcopied := h.copied_le
  have hseen := h.seenPops_le.trans pops_le_copied
  have hvisits : visits capacity s.copied (s.pushes % capacity) = visits capacity s.seenPops (s.pushes % capacity) := by
    refine visits_eq_of_forall hseen fun i hi hlt => mod_ne_mod (by omega) (by omega)
  have hread : s.memory.views .producer (.reads (s.pushes % capacity) .consumer) =
      s.memory.done (.reads (s.pushes % capacity) .consumer) := by
    refine le_antisymm (h.sound.views .producer _) ?_
    calc s.memory.done (.reads (s.pushes % capacity) .consumer)
        = visits capacity s.copied (s.pushes % capacity) := h.consumer.accesses _ (Nat.mod_lt _ h.capacity_pos)
      _ = visits capacity s.seenPops (s.pushes % capacity) := hvisits
      _ ≤ s.memory.views .producer (.reads (s.pushes % capacity) .consumer) := h.consumer.seen _
  have hunread : s.memory.views .producer (.reads (s.pushes % capacity) .producer) =
      s.memory.done (.reads (s.pushes % capacity) .producer) := by
    have hle := h.sound.views .producer (.reads (s.pushes % capacity) .producer)
    rw [h.unread] at hle ⊢
    exact Nat.le_zero.mp hle
  refine Option.isSome_iff_exists.mpr ⟨_,Memory.write_eq_some_iff.mpr ⟨⟨h.producer.accessed _,fun t => ?_⟩,rfl⟩⟩
  cases t with
  | producer => exact hunread
  | consumer => exact hread

/-- The consumer knows of all writes to its slot: no data race. -/
theorem read_isSome (h : Ordered capacity s) {r : ℕ} (hpc : s.consumer = .checked r) :
    (s.memory.read .consumer r).isSome := by
  have hpop := h.pop
  rw [State.KnowsPop,hpc] at hpop
  obtain ⟨rfl,hitems⟩ := hpop
  have hwritten := h.written_lt
  have hseen := h.seenPushes_le.trans pushes_le_written
  have hvisits : visits capacity s.written (s.pops % capacity) = visits capacity s.seenPushes (s.pops % capacity) :=
    visits_eq_of_forall hseen fun i hi hlt => (mod_ne_mod (by omega) (by omega)).symm
  have hknown : s.memory.views .consumer (.writes (s.pops % capacity)) =
      s.memory.done (.writes (s.pops % capacity)) := by
    refine le_antisymm (h.sound.views .consumer _) ?_
    calc s.memory.done (.writes (s.pops % capacity))
        = visits capacity s.written (s.pops % capacity) := h.producer.accesses _ (Nat.mod_lt _ h.capacity_pos)
      _ = visits capacity s.seenPushes (s.pops % capacity) := hvisits
      _ ≤ s.memory.views .consumer (.writes (s.pops % capacity)) := h.producer.seen _
  exact Option.isSome_iff_exists.mpr ⟨_,Memory.read_eq_some_iff.mpr ⟨hknown,rfl,rfl⟩⟩

end Ordered

end TickToTrade.SPSCQueue.Weak
