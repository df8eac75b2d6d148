import Mathlib.Data.List.ModifyLast
import TickToTrade.Logger.Shutdown
import TickToTrade.Logger.Growth

/-! The logger over the life of a process. One thread calls `init` and `shutdown`, any number of
times; the others register and log whenever they like, also while the logger is stopped. Each session
has its own background thread, but the queues and the offset outlive the sessions. -/
namespace TickToTrade.AsyncLogger

/-- `shutdown` behind the join: the file is cut to the offset and closed. -/
def FileState.close (s : FileState) : FileState :=
  if s.mapped then { s.setFile (ftruncate s.currentOffset s.file) with mapped := false } else s

/-- What the background thread does with a message that it has popped. -/
def FileState.afterPop (s : FileState) : Event → Option FileState
  | .written _ msg => s.writeToFile msg
  | _ => some s

/-- `joining` says that the calling thread waits in `shutdown` for the background thread. The copy of
`running_` in `out` is the one in `threads`. -/
structure Logger where
  threads : State
  out : FileState
  joining : Bool

inductive Call
  | init (filepath : List UInt8) (mmapSize : ℕ)
  | shutdown
  | join
  | registerThread (threadId : UInt32)
  | log (queue : ℕ) (level : LogLevel) (timestamp : UInt64) (formatted : FormatResult)
  | background

/-- What a step shows. -/
inductive Entry
  | thread (e : Event)
  | opened (filepath : List UInt8) (mmapSize : ℕ)
  | closed

lemma writeToFile_fields {s out : FileState} {msg : LogMessage} (h : s.writeToFile msg = some out) :
    out.running = s.running ∧ out.mapped = s.mapped := by
  rw [writeToFile_eq] at h
  obtain rfl := Option.some.inj h
  unfold FileState.reserve FileState.resizeMmap FileState.append FileState.setFile
  constructor <;> split <;> split <;> rfl

/-- Where the background thread is, it has exited, it has a message to pop, or it moves on. -/
lemma exited_or_pops_or_moves (s : State) : s.background = .exited ∨
    (∃ activeQueues i rest idle msg queue, s.background = .polling activeQueues (i :: rest) idle ∧
      s.content i = msg :: queue) ∨ ∃ pc, Moves s s.background pc := by
  cases s.background with
  | loopCondition activeQueues =>
    by_cases hgoes : s.running = true ∨ activeQueues ≠ []
    · exact .inr (.inr ⟨_,.enter hgoes⟩)
    · simp only [not_or,Bool.not_eq_true,not_not] at hgoes
      obtain ⟨hstopped,rfl⟩ := hgoes
      exact .inr (.inr ⟨_,.leave hstopped⟩)
  | refresh activeQueues => exact .inr (.inr ⟨_,.refresh activeQueues⟩)
  | polling activeQueues rest idle =>
    cases rest with
    | nil => exact .inr (.inr ⟨_,.polled activeQueues idle⟩)
    | cons i rest =>
      cases hcontent : s.content i with
      | nil => exact .inr (.inr ⟨_,.next hcontent⟩)
      | cons msg queue => exact .inr (.inl ⟨_,_,_,_,_,_,rfl,hcontent⟩)
  | yieldTest activeQueues idle => exact .inr (.inr ⟨_,.yielded activeQueues idle⟩)
  | breakTest activeQueues idle =>
    by_cases hgoes : s.running = true ∨ idle = false
    · exact .inr (.inr ⟨_,.again hgoes⟩)
    · simp only [not_or,Bool.not_eq_true,Bool.not_eq_false] at hgoes
      obtain ⟨hstopped,rfl⟩ := hgoes
      exact .inr (.inr ⟨_,.breaks activeQueues hstopped⟩)
  | exited => exact .inl rfl

lemma backgroundStep_eq_pop {s : State} {activeQueues rest : List ℕ} {i : ℕ} {idle : Bool} {msg : LogMessage}
    {queue : List LogMessage} (hpc : s.background = .polling activeQueues (i :: rest) idle)
    (hwaiting : s.content i = msg :: queue) : backgroundStep s = some (.written i msg,
      { s.modifyQueue i List.tail with background := .polling activeQueues (i :: rest) false }) := by
  unfold backgroundStep
  rw [hpc]
  simp only [hwaiting]

theorem backgroundStep_eq_some {s s' : State} {e : Event} (h : backgroundStep s = some (e,s')) :
    (∃ activeQueues i rest idle msg queue, s.background = .polling activeQueues (i :: rest) idle ∧
      s.content i = msg :: queue ∧ e = .written i msg ∧
      s' = { s.modifyQueue i List.tail with background := .polling activeQueues (i :: rest) false }) ∨
    ∃ pc, Moves s s.background pc ∧ e = .silent ∧ s' = { s with background := pc } := by
  rcases exited_or_pops_or_moves s with hexited | ⟨active,i,rest,idle,msg,queue,hpc,hwaiting⟩ | ⟨pc,hmoves⟩
  · simp [backgroundStep,hexited] at h
  · obtain ⟨rfl,rfl⟩ := Prod.mk.inj (Option.some.inj (h.symm.trans (backgroundStep_eq_pop hpc hwaiting)))
    exact .inl ⟨active,i,rest,idle,msg,queue,hpc,hwaiting,rfl,rfl⟩
  · obtain ⟨rfl,rfl⟩ := Prod.mk.inj (Option.some.inj (h.symm.trans (backgroundStep_of_moves hmoves)))
    exact .inr ⟨pc,hmoves,rfl,rfl⟩

namespace Logger

/-- Before the first `init` there is no background thread. -/
def fresh (files : List UInt8 → List UInt8) : Logger := ⟨⟨false,[],.exited⟩,.fresh files,false⟩

/-- One step of a thread. `shutdown` is two: the exchange of `running_`, and what follows the join. -/
def step (s : Logger) : Call → Option (Entry × Logger)
  | .init filepath mmapSize =>
    if s.joining then none
    else if s.threads.running then some (.thread .silent,s)
    else if mmapSize = 0 then
      -- the file has been emptied, and nothing can be mapped
      some (.thread .silent,{ s with out :=
        { s.out with filepath := filepath, mmapSize := 0, files := Function.update s.out.files filepath [] } })
    else some (.opened filepath mmapSize,
      { s with threads := AsyncLogger.init s.threads.threadQueues, out := s.out.init filepath mmapSize })
  | .shutdown =>
    if s.joining then none
    else if s.threads.running then
      some (.thread .silent,⟨{ s.threads with running := false },{ s.out with running := false },true⟩)
    else some (.thread .silent,s)
  | .join =>
    if s.joining ∧ s.threads.background = .exited then some (.closed,⟨s.threads,s.out.close,false⟩) else none
  | .registerThread threadId => do
    let (e,threads) ← AsyncLogger.step s.threads (.registerThread threadId)
    some (.thread e,{ s with threads := threads })
  | .log i level timestamp formatted => do
    let tq ← s.threads.threadQueues[i]?
    let (e,threads) ← AsyncLogger.step s.threads (.push i (.log level timestamp tq.threadId formatted))
    some (.thread e,{ s with threads := threads })
  | .background => do
    let (e,threads) ← backgroundStep s.threads
    let out ← s.out.afterPop e
    some (.thread e,{ s with threads := threads, out := out })

/-- Everything one step can do. -/
inductive Effect (s : Logger) : Call → Entry → Logger → Prop
  | ignored (a : Call) : Effect s a (.thread .silent) s
  | emptied (filepath : List UInt8) : Effect s (.init filepath 0) (.thread .silent) { s with out :=
      { s.out with filepath := filepath, mmapSize := 0, files := Function.update s.out.files filepath [] } }
  | opened (filepath : List UInt8) (mmapSize : ℕ) (free : s.joining = false) (stopped : s.threads.running = false) :
      Effect s (.init filepath mmapSize) (.opened filepath mmapSize)
        { s with threads := AsyncLogger.init s.threads.threadQueues, out := s.out.init filepath mmapSize }
  | asked (running : s.threads.running = true) : Effect s .shutdown (.thread .silent)
      ⟨{ s.threads with running := false },{ s.out with running := false },true⟩
  | closed (joining : s.joining = true) (exited : s.threads.background = .exited) :
      Effect s .join .closed ⟨s.threads,s.out.close,false⟩
  | registered (threadId : UInt32) (new : threadId ∉ s.threads.threadQueues.map ThreadQueue.threadId) :
      Effect s (.registerThread threadId) (.thread .silent)
        { s with threads := { s.threads with threadQueues := s.threads.threadQueues ++ [⟨threadId,[]⟩] } }
  | pushed (i : ℕ) (level : LogLevel) (timestamp : UInt64) (formatted : FormatResult) (tq : ThreadQueue)
      (at_index : s.threads.threadQueues[i]? = some tq) (room : (s.threads.content i).length + 1 < queueCapacity) :
      Effect s (.log i level timestamp formatted)
        (.thread (.logged i (.log level timestamp tq.threadId formatted)))
        { s with threads := s.threads.modifyQueue i fun queue => queue ++ [.log level timestamp tq.threadId formatted] }
  | popped (activeQueues : List ℕ) (i : ℕ) (rest : List ℕ) (idle : Bool) (msg : LogMessage) (queue : List LogMessage)
      (out : FileState) (at_pc : s.threads.background = .polling activeQueues (i :: rest) idle)
      (waiting : s.threads.content i = msg :: queue) (writes : s.out.writeToFile msg = some out) :
      Effect s .background (.thread (.written i msg)) { s with
        threads := { s.threads.modifyQueue i List.tail with background := .polling activeQueues (i :: rest) false }
        out := out }
  | moved (pc : BackgroundPc) (moves : Moves s.threads s.threads.background pc) :
      Effect s .background (.thread .silent) { s with threads := { s.threads with background := pc } }

variable {s s' : Logger} {a : Call} {e : Entry}

theorem step_cases (h : step s a = some (e,s')) : Effect s a e s' := by
  cases a with
  | init filepath mmapSize =>
    simp only [step] at h
    split at h
    · contradiction
    rename_i hfree
    split at h
    · obtain ⟨rfl,rfl⟩ := Prod.mk.inj (Option.some.inj h)
      exact .ignored _
    rename_i hstopped
    split at h
    · rename_i hzero
      subst hzero
      obtain ⟨rfl,rfl⟩ := Prod.mk.inj (Option.some.inj h)
      exact .emptied filepath
    · obtain ⟨rfl,rfl⟩ := Prod.mk.inj (Option.some.inj h)
      exact .opened filepath mmapSize (by simpa using hfree) (by simpa using hstopped)
  | shutdown =>
    simp only [step] at h
    split at h
    · contradiction
    split at h
    · rename_i hrunning
      obtain ⟨rfl,rfl⟩ := Prod.mk.inj (Option.some.inj h)
      exact .asked hrunning
    · obtain ⟨rfl,rfl⟩ := Prod.mk.inj (Option.some.inj h)
      exact .ignored _
  | join =>
    simp only [step] at h
    split at h
    · rename_i hdone
      obtain ⟨rfl,rfl⟩ := Prod.mk.inj (Option.some.inj h)
      exact .closed hdone.1 hdone.2
    · contradiction
  | registerThread threadId =>
    simp only [step,AsyncLogger.step] at h
    split at h
    · obtain ⟨rfl,rfl⟩ := Prod.mk.inj (Option.some.inj h)
      exact .ignored _
    · rename_i hnew
      obtain ⟨rfl,rfl⟩ := Prod.mk.inj (Option.some.inj h)
      exact .registered threadId (by simpa using hnew)
  | log i level timestamp formatted =>
    simp only [step] at h
    obtain ⟨tq,hat,h⟩ := Option.bind_eq_some_iff.mp h
    simp only [AsyncLogger.step] at h
    split at h
    · rename_i hroom
      obtain ⟨rfl,rfl⟩ := Prod.mk.inj (Option.some.inj h)
      exact .pushed i level timestamp formatted tq hat hroom.2
    · contradiction
  | background =>
    simp only [step] at h
    obtain ⟨⟨e',threads⟩,hstep,h⟩ := Option.bind_eq_some_iff.mp h
    obtain ⟨out,hout,h⟩ := Option.bind_eq_some_iff.mp h
    obtain ⟨rfl,rfl⟩ := Prod.mk.inj (Option.some.inj h)
    rcases backgroundStep_eq_some hstep with ⟨active,i,rest,idle,msg,queue,hpc,hwaiting,rfl,rfl⟩ | ⟨pc,hmoves,rfl,rfl⟩
    · exact .popped active i rest idle msg queue out hpc hwaiting hout
    · obtain rfl := Option.some.inj hout
      exact .moved pc hmoves

/-- `running_` is one variable, and from `init` to the end of `shutdown` a file is mapped and there is
a background thread. -/
structure Sync (s : Logger) : Prop where
  running : s.out.running = s.threads.running
  mapped : s.out.mapped = (s.threads.running || s.joining)
  stopped : s.joining = true → s.threads.running = false
  exited : s.out.mapped = false → s.threads.background = .exited
  consistent : Consistent s.threads

lemma sync_fresh (files : List UInt8 → List UInt8) : Sync (fresh files) where
  running := rfl
  mapped := rfl
  stopped _ := rfl
  exited _ := rfl
  consistent := ⟨⟨0,Nat.zero_le _,rfl⟩,by simp [fresh,BackgroundPc.rest],by simp [fresh,BackgroundPc.idle],fun _ => rfl⟩

lemma Sync.unmapped (h : Sync s) (hfree : s.joining = false) (hstopped : s.threads.running = false) :
    s.out.mapped = false := by
  rw [h.mapped,hstopped,hfree,Bool.or_false]

/-- A thread that can take a step has its file mapped. -/
lemma Sync.mapped_of_background (h : Sync s) (hpc : s.threads.background ≠ .exited) : s.out.mapped = true := by
  by_contra hmapped
  exact hpc (h.exited (Bool.not_eq_true _ ▸ hmapped))

theorem Sync.step (h : Sync s) (heffect : Effect s a e s') : Sync s' := by
  cases heffect with
  | ignored a => exact h
  | emptied filepath => exact ⟨h.running,h.mapped,h.stopped,h.exited,h.consistent⟩
  | opened filepath mmapSize free stopped =>
    have hinit : (s.out.init filepath mmapSize).running = true ∧ (s.out.init filepath mmapSize).mapped = true := by
      simp [FileState.init,h.running,stopped,FileState.setFile]
    refine ⟨hinit.1,?_,?_,?_,consistent_init _⟩
    · simp [hinit.2,AsyncLogger.init]
    · simp [free]
    · simp [hinit.2]
  | asked running =>
    refine ⟨rfl,?_,fun _ => rfl,?_,h.consistent.step (AsyncLogger.Effect.stopped)⟩
    · rw [h.mapped,running]
      rfl
    · exact h.exited
  | closed joining exited =>
    have hstopped := h.stopped joining
    have hmapped : s.out.mapped = true := by rw [h.mapped,hstopped,joining]; rfl
    have hclose : s.out.close.running = s.out.running ∧ s.out.close.mapped = false := by
      simp [FileState.close,hmapped,FileState.setFile]
    refine ⟨hclose.1.trans h.running,?_,?_,fun _ => exited,h.consistent⟩
    · rw [hclose.2,hstopped,Bool.or_false]
    · simp
  | registered threadId new => exact ⟨h.running,h.mapped,h.stopped,h.exited,h.consistent.step (.registered threadId)⟩
  | pushed i level timestamp formatted tq at_index room =>
    have hi : i < s.threads.threadQueues.length := (List.getElem?_eq_some_iff.mp at_index).1
    exact ⟨h.running,h.mapped,h.stopped,h.exited,h.consistent.step (.pushed i _ hi)⟩
  | popped activeQueues i rest idle msg queue out at_pc waiting writes =>
    have hmapped := h.mapped_of_background (by simp [at_pc])
    obtain ⟨hrunning',hmapped'⟩ := writeToFile_fields writes
    refine ⟨hrunning'.trans h.running,hmapped'.trans h.mapped,h.stopped,?_,?_⟩
    · simp [hmapped',hmapped]
    · exact h.consistent.step (.popped activeQueues i rest idle msg queue at_pc waiting)
  | moved pc moves =>
    have hpc : s.threads.background ≠ .exited := by
      intro hexited
      rw [hexited] at moves
      cases moves
    have hmapped := h.mapped_of_background hpc
    exact ⟨h.running,h.mapped,h.stopped,by simp [hmapped],h.consistent.step (.moved pc moves)⟩

/-- The steps of the threads among the entries. -/
def events (entries : List Entry) : List Event :=
  entries.filterMap fun
    | .thread e => some e
    | _ => none

/-- What the calls of `log` of a thread have pushed. -/
def loggedBy (threadId : UInt32) (entries : List Entry) : List LogMessage :=
  entries.filterMap fun
    | .thread (.logged _ msg) => if msg.threadId = threadId then some msg else none
    | _ => none

/-- What was passed to `writeToFile`, in all sessions. -/
def allWritten (entries : List Entry) : List LogMessage :=
  entries.filterMap fun
    | .thread (.written _ msg) => some msg
    | _ => none

lemma allWritten_append (entries entries' : List Entry) :
    allWritten (entries ++ entries') = allWritten entries ++ allWritten entries' := List.filterMap_append

lemma logged_events_append (i : ℕ) (entries entries' : List Entry) :
    logged i (events (entries ++ entries')) = logged i (events entries) ++ logged i (events entries') := by
  rw [events,List.filterMap_append,logged_append]
  rfl

lemma written_events_append (i : ℕ) (entries entries' : List Entry) :
    written i (events (entries ++ entries')) = written i (events entries) ++ written i (events entries') := by
  rw [events,List.filterMap_append,written_append]
  rfl

lemma mem_logged_events {entries : List Entry} {i : ℕ} {msg : LogMessage} :
    msg ∈ logged i (events entries) ↔ .thread (.logged i msg) ∈ entries := by
  induction entries with
  | nil => simp [events,logged]
  | cons e entries ih =>
    rw [← List.singleton_append,logged_events_append,List.mem_append,List.mem_append,ih]
    refine or_congr_left ?_
    rcases e with e | _ | _
    · cases e with
      | logged j msg' =>
        by_cases hj : j = i
        · simp [events,hj,eq_comm]
        · simp [events,hj,Ne.symm hj]
      | _ => simp [events]
    · simp [events,logged]
    · simp [events,logged]

/-- Queues of sessions that have ended are taken over: one step. -/
lemma Effect.conserves (h : Effect s a e s') (i : ℕ) :
    written i (events [e]) ++ s'.threads.content i = s.threads.content i ++ logged i (events [e]) := by
  cases h with
  | registered threadId new => exact (AsyncLogger.Effect.registered threadId).conserves i
  | pushed j level timestamp formatted tq at_index room =>
    exact (AsyncLogger.Effect.pushed j _ (List.getElem?_eq_some_iff.mp at_index).1).conserves i
  | popped active j rest idle msg queue out at_pc waiting writes =>
    exact (AsyncLogger.Effect.popped active j rest idle msg queue at_pc waiting).conserves i
  | moved pc moves => exact (AsyncLogger.Effect.moved pc moves).conserves i
  | _ => simp [events,written,logged,State.content,AsyncLogger.init]

def threadIds (s : Logger) : List UInt32 := s.threads.threadQueues.map ThreadQueue.threadId

/-- Every queue has the messages of one thread. -/
structure Labelled (entries : List Entry) (s : Logger) : Prop where
  nodup : s.threadIds.Nodup
  fifo : ∀ i, logged i (events entries) = written i (events entries) ++ s.threads.content i
  labels : ∀ i msg, Entry.thread (.logged i msg) ∈ entries → s.threadIds[i]? = some msg.threadId

lemma labelled_fresh (files : List UInt8 → List UInt8) : Labelled [] (fresh files) :=
  ⟨List.nodup_nil,fun _ => rfl,by simp⟩

lemma threadIds_modifyQueue (s : State) (i : ℕ) (f : List LogMessage → List LogMessage) :
    (s.modifyQueue i f).threadQueues.map ThreadQueue.threadId = s.threadQueues.map ThreadQueue.threadId := by
  ext j : 1
  rw [State.modifyQueue,List.getElem?_map,List.getElem?_map,List.getElem?_modify]
  by_cases hj : i = j
  · cases s.threadQueues[j]? <;> simp [hj]
  · simp [hj]

/-- Threads register under different ids, and are never removed. -/
lemma Effect.keeps_threadIds (h : Effect s a e s') (hnodup : s.threadIds.Nodup) :
    s'.threadIds.Nodup ∧ s.threadIds <+: s'.threadIds := by
  suffices hids : s'.threadIds = s.threadIds ∨ ∃ threadId ∉ s.threadIds, s'.threadIds = s.threadIds ++ [threadId] by
    rcases hids with hsame | ⟨threadId,hnew,hids⟩
    · rw [hsame]
      exact ⟨hnodup,List.prefix_refl _⟩
    · rw [hids,← List.concat_eq_append]
      exact ⟨hnodup.concat hnew,List.concat_eq_append ▸ List.prefix_append _ _⟩
  cases h with
  | registered threadId new => exact .inr ⟨threadId,new,by simp [threadIds]⟩
  | pushed i level timestamp formatted tq at_index room => exact .inl (threadIds_modifyQueue _ _ _)
  | popped active i rest idle msg queue out at_pc waiting writes => exact .inl (threadIds_modifyQueue _ _ _)
  | _ => exact .inl rfl

theorem Labelled.step {entries : List Entry} (h : Labelled entries s) (heffect : Effect s a e s') :
    Labelled (entries ++ [e]) s' := by
  obtain ⟨hnodup,hids⟩ := heffect.keeps_threadIds h.nodup
  refine ⟨hnodup,fun i => ?_,fun i msg hlogged => ?_⟩
  · rw [logged_events_append,written_events_append,h.fifo,List.append_assoc,List.append_assoc,heffect.conserves]
  · rcases List.mem_append.mp hlogged with hold | hnew
    · exact getElem?_of_isPrefix hids (h.labels i msg hold)
    · rw [List.mem_singleton] at hnew
      subst hnew
      cases heffect with
      | pushed i level timestamp formatted tq at_index room =>
        apply getElem?_of_isPrefix hids
        rw [threadIds,List.getElem?_map,at_index]
        rfl

lemma Labelled.threadId_eq_iff {entries : List Entry} (h : Labelled entries s) {i j : ℕ} {threadId threadId' : UInt32}
    (hj : s.threadIds[j]? = some threadId') (hi : s.threadIds[i]? = some threadId) : threadId' = threadId ↔ j = i := by
  constructor
  · rintro rfl
    exact (List.getElem?_inj (List.getElem?_eq_some_iff.mp hj).1 h.nodup).mp (hj.trans hi.symm)
  · rintro rfl
    exact Option.some.inj (hj.symm.trans hi)

/-- A message in the log carries the id of the thread that called `log`, and no other thread has it. -/
lemma Labelled.loggedBy_eq {entries : List Entry} (h : Labelled entries s) {i : ℕ} {threadId : UInt32}
    (hi : s.threadIds[i]? = some threadId) : loggedBy threadId entries = logged i (events entries) := by
  unfold loggedBy logged events
  rw [List.filterMap_filterMap]
  apply List.filterMap_congr
  intro e he
  rcases e with e | _ | _
  · cases e with
    | logged j msg =>
      have hj := h.labels j msg he
      have hsame : msg.threadId = threadId ↔ j = i := h.threadId_eq_iff hj hi
      simp [hsame]
    | _ => rfl
  · rfl
  · rfl

lemma Labelled.written_labels {entries : List Entry} (h : Labelled entries s) {i : ℕ} {msg : LogMessage}
    (hwritten : .thread (.written i msg) ∈ entries) : s.threadIds[i]? = some msg.threadId := by
  apply h.labels
  rw [← mem_logged_events,h.fifo,List.mem_append]
  left
  simp only [written,events,List.mem_filterMap]
  exact ⟨.written i msg,⟨_,hwritten,rfl⟩,if_pos rfl⟩

lemma Labelled.writtenBy_eq {entries : List Entry} (h : Labelled entries s) {i : ℕ} {threadId : UInt32}
    (hi : s.threadIds[i]? = some threadId) :
    (allWritten entries).filter (·.threadId = threadId) = written i (events entries) := by
  unfold allWritten written events
  rw [List.filter_filterMap,List.filterMap_filterMap]
  apply List.filterMap_congr
  intro e he
  rcases e with e | _ | _
  · cases e with
    | written j msg =>
      have hj := h.written_labels he
      have hsame : msg.threadId = threadId ↔ j = i := h.threadId_eq_iff hj hi
      simp [hsame,Option.filter]
    | _ => rfl
  · rfl
  · rfl

end Logger
end TickToTrade.AsyncLogger
