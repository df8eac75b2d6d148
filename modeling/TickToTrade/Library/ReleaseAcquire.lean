import Mathlib.Data.Fintype.Defs
import Mathlib.Order.Lattice
import Mathlib.Order.BoundedOrder.Lattice

/-! Memory with relaxed, acquire and release accesses. A store is kept together with what its thread
knew, and a load may return every store that its thread does not know to be overwritten. A plain
location may be accessed by a thread that knows of all conflicting accesses; without this knowledge
the access is a data race and has no result. -/
namespace TickToTrade.ReleaseAcquire

/-- What one can know of: stores to an atomic location, writes to a plain one, and its reads by a
thread. -/
inductive Counter (A N Θ : Type*)
  | stores (a : A)
  | writes (n : N)
  | reads (n : N) (t : Θ)
  deriving DecidableEq

/-- How many of each have happened before. -/
abbrev View (A N Θ : Type*) := Counter A N Θ → ℕ

/-- `seq_cst`, which is acquire or release and a place in one order of all such accesses, and `consume`
are left out. -/
inductive MemoryOrder
  | relaxed
  | acquire
  | release
  deriving DecidableEq, Repr

structure Message (A N Θ V : Type*) where
  value : V
  view : View A N Θ

/-- The stores of a location are numbered, and number 0 is its initial value. `done` counts what
has happened, `views` what a thread knows of it. -/
structure Memory (A N Θ V W : Type*) where
  stores : A → ℕ → Message A N Θ V
  plain : N → W
  done : View A N Θ
  views : Θ → View A N Θ

namespace Memory
variable {A N Θ V W : Type*}

def init (values : A → V) (plain : N → W) : Memory A N Θ V W := ⟨fun a _ => ⟨values a,fun _ => 0⟩,plain,fun _ => 0,fun _ _ => 0⟩

variable [DecidableEq A] [DecidableEq N] [DecidableEq Θ] (m : Memory A N Θ V W) (t : Θ)

/-- A thread does something, and knows that it has. -/
def advance (c : Counter A N Θ) : Memory A N Θ V W :=
  { m with
    done := Function.update m.done c (m.done c + 1)
    views := Function.update m.views t (Function.update (m.views t) c (m.done c + 1)) }

/-- What a thread knows after it has loaded store `i`. -/
def loadView (order : MemoryOrder) (a : A) (i : ℕ) : View A N Θ :=
  Function.update (if order = .acquire then m.views t ⊔ (m.stores a i).view else m.views t) (.stores a) i

/-- An atomic load that returns store `i`. -/
def load (order : MemoryOrder) (a : A) (i : ℕ) : Option (V × Memory A N Θ V W) :=
  if m.views t (.stores a) ≤ i ∧ i ≤ m.done (.stores a) then
    some ((m.stores a i).value,{ m with views := Function.update m.views t (m.loadView t order a i) })
  else none

/-- What an atomic store passes on. -/
def storeView (order : MemoryOrder) (a : A) : View A N Θ :=
  if order = .release then (m.advance t (.stores a)).views t
  else Function.update (fun _ => 0) (.stores a) (m.done (.stores a) + 1)

/-- The stores with one more behind the last one of `a`. -/
def addStore (a : A) (message : Message A N Θ V) : A → ℕ → Message A N Θ V :=
  Function.update m.stores a (Function.update (m.stores a) (m.done (.stores a) + 1) message)

/-- An atomic store by a thread that knows of all stores before it. Concurrent stores to one
location are not described. -/
def store (order : MemoryOrder) (a : A) (v : V) : Option (Memory A N Θ V W) :=
  if m.views t (.stores a) = m.done (.stores a) then
    some { m.advance t (.stores a) with stores := m.addStore a ⟨v,m.storeView t order a⟩ }
  else none

/-- A read of a plain location. -/
def read (n : N) : Option (W × Memory A N Θ V W) :=
  if m.views t (.writes n) = m.done (.writes n) then some (m.plain n,m.advance t (.reads n t)) else none

/-- A write to a plain location. -/
def write [Fintype Θ] (n : N) (w : W) : Option (Memory A N Θ V W) :=
  if m.views t (.writes n) = m.done (.writes n) ∧ ∀ u, m.views t (.reads n u) = m.done (.reads n u) then
    some { m.advance t (.writes n) with plain := Function.update m.plain n w }
  else none

section Accesses
variable {m t} {m' : Memory A N Θ V W} {order : MemoryOrder} {a : A} {n : N} {i j : ℕ} {v : V} {w : W}

lemma load_eq_some_iff : m.load t order a i = some (v,m') ↔
    (m.views t (.stores a) ≤ i ∧ i ≤ m.done (.stores a)) ∧ v = (m.stores a i).value ∧
      m' = { m with views := Function.update m.views t (m.loadView t order a i) } := by
  simp [load,eq_comm]

lemma load_done (h : m.load t order a i = some (v,m')) : m'.done = m.done := by
  obtain ⟨_,_,rfl⟩ := load_eq_some_iff.mp h
  rfl

lemma load_stores (h : m.load t order a i = some (v,m')) : m'.stores = m.stores := by
  obtain ⟨_,_,rfl⟩ := load_eq_some_iff.mp h
  rfl

lemma load_plain (h : m.load t order a i = some (v,m')) : m'.plain = m.plain := by
  obtain ⟨_,_,rfl⟩ := load_eq_some_iff.mp h
  rfl

lemma load_views_self (h : m.load t order a i = some (v,m')) : m'.views t = m.loadView t order a i := by
  obtain ⟨_,_,rfl⟩ := load_eq_some_iff.mp h
  exact Function.update_self _ _ _

lemma load_views_of_ne (h : m.load t order a i = some (v,m')) {u : Θ} (hu : u ≠ t) : m'.views u = m.views u := by
  obtain ⟨_,_,rfl⟩ := load_eq_some_iff.mp h
  exact Function.update_of_ne hu _ _

@[simp] lemma loadView_self : m.loadView t order a i (.stores a) = i := Function.update_self _ _ _

/-- A load makes no thread forget. -/
lemma le_loadView (h : m.views t (.stores a) ≤ i) : m.views t ≤ m.loadView t order a i := by
  refine le_update_iff.mpr ⟨h,fun c _ => ?_⟩
  split
  · exact le_sup_left (a := m.views t c)
  · exact le_rfl

/-- An acquire load passes on what the storing thread knew. -/
lemma le_loadView_acquire {c : Counter A N Θ} (hc : c ≠ .stores a) :
    (m.stores a i).view c ≤ m.loadView t .acquire a i c := by
  rw [loadView,Function.update_of_ne hc,if_pos rfl]
  exact le_sup_right

@[simp] lemma advance_done (c : Counter A N Θ) :
    (m.advance t c).done = Function.update m.done c (m.done c + 1) := rfl

@[simp] lemma advance_stores (c : Counter A N Θ) : (m.advance t c).stores = m.stores := rfl

@[simp] lemma advance_plain (c : Counter A N Θ) : (m.advance t c).plain = m.plain := rfl

lemma le_advance_iff {c d : Counter A N Θ} : i ≤ (m.advance t c).done d ↔
    i ≤ m.done d ∨ d = c ∧ i = m.done d + 1 := by
  rw [advance_done,Function.update_apply]
  split
  · rename_i hd
    subst hd
    simp only [true_and]
    omega
  · rename_i hd
    simp [hd]

lemma advance_views_self (c : Counter A N Θ) :
    (m.advance t c).views t = Function.update (m.views t) c (m.done c + 1) := Function.update_self _ _ _

lemma advance_views_of_ne {u : Θ} (h : u ≠ t) (c : Counter A N Θ) : (m.advance t c).views u = m.views u :=
  Function.update_of_ne h _ _

lemma store_eq_some_iff : m.store t order a v = some m' ↔ m.views t (.stores a) = m.done (.stores a) ∧
    m' = { m.advance t (.stores a) with stores := m.addStore a ⟨v,m.storeView t order a⟩ } := by
  simp [store,eq_comm]

lemma read_eq_some_iff : m.read t n = some (w,m') ↔
    m.views t (.writes n) = m.done (.writes n) ∧ w = m.plain n ∧ m' = m.advance t (.reads n t) := by
  simp [read,eq_comm]

lemma write_eq_some_iff [Fintype Θ] : m.write t n w = some m' ↔
    (m.views t (.writes n) = m.done (.writes n) ∧ ∀ u, m.views t (.reads n u) = m.done (.reads n u)) ∧
      m' = { m.advance t (.writes n) with plain := Function.update m.plain n w } := by
  simp [write,eq_comm]

omit [DecidableEq N] [DecidableEq Θ] in
@[simp] lemma addStore_self (a : A) (message : Message A N Θ V) :
    m.addStore a message a (m.done (.stores a) + 1) = message := by
  simp [addStore]

omit [DecidableEq N] [DecidableEq Θ] in
/-- A store leaves the earlier ones and those to other locations as they are. -/
lemma addStore_of_le {b : A} (hi : i ≤ m.done (.stores b)) (message : Message A N Θ V) :
    m.addStore a message b i = m.stores b i := by
  unfold addStore
  by_cases hb : b = a
  · subst hb
    rw [Function.update_self,Function.update_of_ne (by omega)]
  · rw [Function.update_of_ne hb]

end Accesses

/-- No thread and no store knows of what has not happened. -/
structure Sound (m : Memory A N Θ V W) : Prop where
  views : ∀ t, m.views t ≤ m.done
  stores : ∀ a, ∀ i ≤ m.done (.stores a), (m.stores a i).view ≤ m.done

omit [DecidableEq A] [DecidableEq N] [DecidableEq Θ] in
lemma sound_init (values : A → V) (plain : N → W) : (init values plain : Memory A N Θ V W).Sound where
  views _ _ := le_rfl
  stores _ _ _ _ := le_rfl

namespace Sound
variable {m t} {m' : Memory A N Θ V W} {order : MemoryOrder} {a : A} {n : N} {i : ℕ} {v : V} {w : W}

lemma loadView_le (h : m.Sound) (hi : i ≤ m.done (.stores a)) : m.loadView t order a i ≤ m.done := by
  refine update_le_iff.mpr ⟨hi,fun c _ => ?_⟩
  split
  · exact sup_le (h.views t) (h.stores a i hi) c
  · exact h.views t c

theorem load (h : m.Sound) (hload : m.load t order a i = some (v,m')) : m'.Sound := by
  obtain ⟨⟨_,hi⟩,_,rfl⟩ := load_eq_some_iff.mp hload
  refine ⟨fun u => ?_,h.stores⟩
  by_cases hu : u = t
  · subst hu
    simpa using h.loadView_le hi
  · simpa [hu] using h.views u

/-- What a thread has done last it has known of before, if it is the only one to do it. -/
lemma load_own (h : m.Sound) {c : Counter A N Θ} (hown : m.views t c = m.done c)
    (hload : m.load t order a i = some (v,m')) : m'.views t c = m'.done c := by
  obtain ⟨⟨hle,hi⟩,_,rfl⟩ := load_eq_some_iff.mp hload
  have hbelow : m.loadView t order a i c ≤ m.done c := h.loadView_le hi c
  have habove : m.views t c ≤ m.loadView t order a i c := le_loadView hle c
  simp only [Function.update_self]
  omega

lemma load_latest (h : m.Sound) (t : Θ) (order : MemoryOrder) (a : A) :
    ∃ m', m.load t order a (m.done (.stores a)) = some ((m.stores a (m.done (.stores a))).value,m') :=
  ⟨_,load_eq_some_iff.mpr ⟨⟨h.views t _,le_rfl⟩,rfl,rfl⟩⟩

/-- The one writer of a location loads its own last store, in every order. -/
lemma load_last (hown : m.views t (.stores a) = m.done (.stores a)) (hload : m.load t order a i = some (v,m')) :
    i = m.done (.stores a) := by
  obtain ⟨⟨hle,hi⟩,_,_⟩ := load_eq_some_iff.mp hload
  omega

omit [DecidableEq A] [DecidableEq N] [DecidableEq Θ] in
lemma le_done_update [DecidableEq (Counter A N Θ)] {view : View A N Θ} (h : view ≤ m.done) (c : Counter A N Θ) :
    view ≤ Function.update m.done c (m.done c + 1) :=
  le_update_iff.mpr ⟨Nat.le_succ_of_le (h c),fun c' _ => h c'⟩

theorem advance_views (h : m.Sound) (c : Counter A N Θ) (u : Θ) : (m.advance t c).views u ≤ (m.advance t c).done := by
  by_cases hu : u = t
  · subst hu
    rw [advance_views_self,advance_done]
    exact update_le_update_iff.mpr ⟨le_rfl,fun c' _ => h.views u c'⟩
  · rw [advance_views_of_ne hu]
    exact le_done_update (h.views u) c

theorem store (h : m.Sound) (hstore : m.store t order a v = some m') : m'.Sound := by
  obtain ⟨_,rfl⟩ := store_eq_some_iff.mp hstore
  refine ⟨h.advance_views _,fun b i hi => ?_⟩
  replace hi : i ≤ (m.advance t (.stores a)).done (.stores b) := hi
  rcases le_advance_iff.mp hi with hold | ⟨heq,rfl⟩
  · simp only [addStore_of_le hold]
    exact le_done_update (h.stores b i hold) _
  · obtain rfl : b = a := Counter.stores.inj heq
    simp only [addStore_self,storeView]
    split
    · exact h.advance_views _ t
    · exact update_le_iff.mpr ⟨by simp,fun c _ => Nat.zero_le _⟩

theorem read (h : m.Sound) (hread : m.read t n = some (w,m')) : m'.Sound := by
  obtain ⟨_,_,rfl⟩ := read_eq_some_iff.mp hread
  exact ⟨h.advance_views _,fun b i hi => le_done_update (h.stores b i (by simpa using hi)) _⟩

theorem write [Fintype Θ] (h : m.Sound) (hwrite : m.write t n w = some m') : m'.Sound := by
  obtain ⟨_,rfl⟩ := write_eq_some_iff.mp hwrite
  exact ⟨h.advance_views _,fun b i hi => le_done_update (h.stores b i (by simpa using hi)) _⟩

end Sound
end Memory
end TickToTrade.ReleaseAcquire
