import TickToTrade.Library.Run

/-! The lock-free single-producer single-consumer ring. One action is one atomic step of `push`
or of `pop`, so a list of actions is an interleaving of the two threads; an action that is not
the next step of its thread is not enabled. Release and acquire make writes visible in order. -/
namespace TickToTrade.SPSCQueue

variable {T : Type*}

/-- Where the producer is inside `push(item)`. -/
inductive ProducerPc (T : Type*)
  | idle
  | loaded (item : T) (currentWrite : ℕ)
  | checked (item : T) (currentWrite : ℕ)
  | written (item : T) (currentWrite : ℕ)

/-- Where the consumer is inside `pop`. -/
inductive ConsumerPc (T : Type*)
  | idle
  | loaded (currentRead : ℕ)
  | checked (currentRead : ℕ)
  | copied (currentRead : ℕ) (item : T)

structure State (T : Type*) where
  writeIndex : ℕ
  readIndex : ℕ
  data : ℕ → T
  producer : ProducerPc T
  consumer : ConsumerPc T

/-- The indices start at zero; the slots hold whatever they held. -/
def init (data : ℕ → T) : State T := ⟨0,0,data,.idle,.idle⟩

inductive Action (T : Type*)
  | loadWrite (item : T)
  | checkFull
  | writeData
  | storeWrite
  | loadRead
  | checkEmpty
  | readData
  | storeRead

/-- What a step shows: the return of a call with its outcome, or nothing. -/
inductive Event (T : Type*)
  | silent
  | pushed (item : T)
  | pushFull
  | popped (item : T)
  | popEmpty

def step (capacity : ℕ) (s : State T) : Action T → Option (Event T × State T)
  | .loadWrite item =>
    match s.producer with
    | .idle => some (.silent,{ s with producer := .loaded item s.writeIndex })
    | _ => none
  | .checkFull =>
    match s.producer with
    | .loaded item w =>
      if (w + 1) % capacity = s.readIndex then some (.pushFull,{ s with producer := .idle })
      else some (.silent,{ s with producer := .checked item w })
    | _ => none
  | .writeData =>
    match s.producer with
    | .checked item w =>
      some (.silent,{ s with data := Function.update s.data w item, producer := .written item w })
    | _ => none
  | .storeWrite =>
    match s.producer with
    | .written item w =>
      some (.pushed item,{ s with writeIndex := (w + 1) % capacity, producer := .idle })
    | _ => none
  | .loadRead =>
    match s.consumer with
    | .idle => some (.silent,{ s with consumer := .loaded s.readIndex })
    | _ => none
  | .checkEmpty =>
    match s.consumer with
    | .loaded r =>
      if r = s.writeIndex then some (.popEmpty,{ s with consumer := .idle })
      else some (.silent,{ s with consumer := .checked r })
    | _ => none
  | .readData =>
    match s.consumer with
    | .checked r => some (.silent,{ s with consumer := .copied r (s.data r) })
    | _ => none
  | .storeRead =>
    match s.consumer with
    | .copied r item =>
      some (.popped item,{ s with readIndex := (r + 1) % capacity, consumer := .idle })
    | _ => none

/-- Everything one step can do. -/
inductive Effect (capacity : ℕ) (s : State T) : Action T → Event T → State T → Prop
  | loadWrite (item : T) (at_pc : s.producer = .idle) :
      Effect capacity s (.loadWrite item) .silent { s with producer := .loaded item s.writeIndex }
  | full (item : T) (w : ℕ) (at_pc : s.producer = .loaded item w) (full : (w + 1) % capacity = s.readIndex) :
      Effect capacity s .checkFull .pushFull { s with producer := .idle }
  | room (item : T) (w : ℕ) (at_pc : s.producer = .loaded item w) (room : (w + 1) % capacity ≠ s.readIndex) :
      Effect capacity s .checkFull .silent { s with producer := .checked item w }
  | writeData (item : T) (w : ℕ) (at_pc : s.producer = .checked item w) :
      Effect capacity s .writeData .silent
        { s with data := Function.update s.data w item, producer := .written item w }
  | storeWrite (item : T) (w : ℕ) (at_pc : s.producer = .written item w) :
      Effect capacity s .storeWrite (.pushed item)
        { s with writeIndex := (w + 1) % capacity, producer := .idle }
  | loadRead (at_pc : s.consumer = .idle) :
      Effect capacity s .loadRead .silent { s with consumer := .loaded s.readIndex }
  | empty (r : ℕ) (at_pc : s.consumer = .loaded r) (empty : r = s.writeIndex) :
      Effect capacity s .checkEmpty .popEmpty { s with consumer := .idle }
  | items (r : ℕ) (at_pc : s.consumer = .loaded r) (items : r ≠ s.writeIndex) :
      Effect capacity s .checkEmpty .silent { s with consumer := .checked r }
  | readData (r : ℕ) (at_pc : s.consumer = .checked r) :
      Effect capacity s .readData .silent { s with consumer := .copied r (s.data r) }
  | storeRead (r : ℕ) (item : T) (at_pc : s.consumer = .copied r item) :
      Effect capacity s .storeRead (.popped item) { s with readIndex := (r + 1) % capacity, consumer := .idle }

theorem step_cases {capacity : ℕ} {s s' : State T} {a : Action T} {e : Event T}
    (h : step capacity s a = some (e,s')) : Effect capacity s a e s' := by
  cases a with
  | loadWrite item =>
    simp only [step] at h
    split at h
    · rename_i hpc
      obtain ⟨rfl,rfl⟩ := Prod.mk.inj (Option.some.inj h)
      exact .loadWrite item hpc
    · contradiction
  | checkFull =>
    simp only [step] at h
    split at h
    · rename_i item w hpc
      split at h
      · rename_i hfull
        obtain ⟨rfl,rfl⟩ := Prod.mk.inj (Option.some.inj h)
        exact .full item w hpc hfull
      · rename_i hroom
        obtain ⟨rfl,rfl⟩ := Prod.mk.inj (Option.some.inj h)
        exact .room item w hpc hroom
    · contradiction
  | writeData =>
    simp only [step] at h
    split at h
    · rename_i item w hpc
      obtain ⟨rfl,rfl⟩ := Prod.mk.inj (Option.some.inj h)
      exact .writeData item w hpc
    · contradiction
  | storeWrite =>
    simp only [step] at h
    split at h
    · rename_i item w hpc
      obtain ⟨rfl,rfl⟩ := Prod.mk.inj (Option.some.inj h)
      exact .storeWrite item w hpc
    · contradiction
  | loadRead =>
    simp only [step] at h
    split at h
    · rename_i hpc
      obtain ⟨rfl,rfl⟩ := Prod.mk.inj (Option.some.inj h)
      exact .loadRead hpc
    · contradiction
  | checkEmpty =>
    simp only [step] at h
    split at h
    · rename_i r hpc
      split at h
      · rename_i hempty
        obtain ⟨rfl,rfl⟩ := Prod.mk.inj (Option.some.inj h)
        exact .empty r hpc hempty
      · rename_i hitems
        obtain ⟨rfl,rfl⟩ := Prod.mk.inj (Option.some.inj h)
        exact .items r hpc hitems
    · contradiction
  | readData =>
    simp only [step] at h
    split at h
    · rename_i r hpc
      obtain ⟨rfl,rfl⟩ := Prod.mk.inj (Option.some.inj h)
      exact .readData r hpc
    · contradiction
  | storeRead =>
    simp only [step] at h
    split at h
    · rename_i r item hpc
      obtain ⟨rfl,rfl⟩ := Prod.mk.inj (Option.some.inj h)
      exact .storeRead r item hpc
    · contradiction

/-- The slot that `push` owns between its check and the store that publishes the item. -/
def State.writingSlot (s : State T) : Option ℕ :=
  match s.producer with
  | .checked _ w => some w
  | .written _ w => some w
  | _ => none

/-- The slot that `pop` owns between its check and the store that releases the slot. -/
def State.readingSlot (s : State T) : Option ℕ :=
  match s.consumer with
  | .checked r => some r
  | .copied r _ => some r
  | _ => none

/-- Items of the pushes that have returned true. -/
def pushedItems : List (Event T) → List T
  | [] => []
  | .pushed item :: es => item :: pushedItems es
  | _ :: es => pushedItems es

/-- Items of the pops that have returned true. -/
def poppedItems : List (Event T) → List T
  | [] => []
  | .popped item :: es => item :: poppedItems es
  | _ :: es => poppedItems es

theorem pushedItems_append (es fs : List (Event T)) :
    pushedItems (es ++ fs) = pushedItems es ++ pushedItems fs := by
  induction es with
  | nil => rfl
  | cons e es ih => cases e <;> simp [pushedItems,ih]

theorem poppedItems_append (es fs : List (Event T)) :
    poppedItems (es ++ fs) = poppedItems es ++ poppedItems fs := by
  induction es with
  | nil => rfl
  | cons e es ih => cases e <;> simp [poppedItems,ih]

/-- The sequential queue of at most `bound` items that the ring stands for. -/
inductive Fifo (bound : ℕ) : List T → Event T → List T → Prop
  | silent (q) : Fifo bound q .silent q
  | push {q item} (room : q.length < bound) : Fifo bound q (.pushed item) (q ++ [item])
  | full {q} (full : q.length = bound) : Fifo bound q .pushFull q
  | pop (item q) : Fifo bound (item :: q) (.popped item) q
  | empty : Fifo bound [] .popEmpty []

/-- A history is sequentially legal: replayed in order it takes the queue from one content to another. -/
inductive Legal (bound : ℕ) : List T → List (Event T) → List T → Prop
  | nil (q) : Legal bound q [] q
  | snoc {q es q' e q''} (before : Legal bound q es q') (last : Fifo bound q' e q'') :
      Legal bound q (es ++ [e]) q''

end TickToTrade.SPSCQueue
