import TickToTrade.Logger.Process

/-! The files that the sessions of a process leave. The offset is never set back, so a session starts
its file with as many zero bytes as the sessions before it have written; and while the mapping does
not reach the offset, a message is lost for each time that it doubles. -/
namespace TickToTrade.AsyncLogger

section Bytes
variable {text line : List UInt8} {m n : ℕ}

lemma ftruncate_of_le (h : text.length ≤ m) : ftruncate m text = text ++ List.replicate (m - text.length) 0 := by
  rw [ftruncate,List.take_of_length_le h]

lemma ftruncate_zeros (m n : ℕ) : ftruncate m (List.replicate n 0) = List.replicate m 0 := by
  rw [ftruncate,List.take_replicate,List.length_replicate,List.replicate_append_replicate]
  congr 1
  omega

lemma ftruncate_ftruncate (h : text.length ≤ m) (hmn : m ≤ n) : ftruncate n (ftruncate m text) = ftruncate n text := by
  rw [ftruncate_of_le (by rwa [length_ftruncate]),ftruncate_of_le h,ftruncate_of_le (h.trans hmn),List.append_assoc,
    List.replicate_append_replicate,List.length_append,List.length_replicate]
  congr 2
  omega

lemma ftruncate_back (h : text.length ≤ m) : ftruncate text.length (ftruncate m text) = text := by
  rw [ftruncate,take_ftruncate h le_rfl,length_ftruncate,Nat.sub_eq_zero_of_le h,List.take_length]
  exact List.append_nil _

lemma overwrite_ftruncate (h : text.length + line.length ≤ m) :
    overwrite (ftruncate m text) text.length line = ftruncate m (text ++ line) := by
  rw [overwrite,take_ftruncate (by omega) le_rfl,List.take_length,ftruncate_of_le (by omega : text.length ≤ m),
    ftruncate_of_le (by rwa [List.length_append]),List.drop_append,List.drop_of_length_le (by omega),List.drop_replicate,
    List.length_append,List.nil_append]
  congr 2
  omega

end Bytes

/-- A session: how it was opened, and the messages that were passed to `writeToFile`. -/
structure Opened where
  filepath : List UInt8
  mmapSize : ℕ
  messages : List LogMessage

/-- A session with the number of first messages for which there was no room. -/
structure LogFile extends Opened where
  dropped : ℕ

namespace LogFile

def lines (f : LogFile) : List UInt8 := (f.messages.drop f.dropped).flatMap LogMessage.line

/-- The file of a session that starts at an offset. -/
def text (f : LogFile) (offset : ℕ) : List UInt8 := List.replicate offset 0 ++ f.lines

/-- The session after one more message. -/
def written (f : LogFile) (msg : LogMessage) (dropped : ℕ) : LogFile :=
  { f with messages := f.messages ++ [msg], dropped := dropped }

@[simp] lemma length_text (f : LogFile) (offset : ℕ) : (f.text offset).length = offset + f.lines.length := by
  rw [text,List.length_append,List.length_replicate]

lemma lines_eq_nil {f : LogFile} (h : f.messages.length ≤ f.dropped) : f.lines = [] := by
  rw [lines,List.drop_of_length_le h,List.flatMap_nil]

lemma lines_written {f : LogFile} (h : f.dropped ≤ f.messages.length) (msg : LogMessage) :
    (f.written msg f.dropped).lines = f.lines ++ msg.line := by
  simp [lines,written,List.drop_append_of_le_length h]

end LogFile

/-- The offset and the files that sessions leave, one after another. -/
def disk (files : List UInt8 → List UInt8) (log : List LogFile) : ℕ × (List UInt8 → List UInt8) :=
  log.foldl (fun d f => (d.1 + f.lines.length,Function.update d.2 f.filepath (f.text d.1))) (0,files)

lemma disk_concat (files : List UInt8 → List UInt8) (log : List LogFile) (f : LogFile) :
    disk files (log ++ [f]) = ((disk files log).1 + f.lines.length,
      Function.update (disk files log).2 f.filepath (f.text (disk files log).1)) := by
  rw [disk,List.foldl_append]
  rfl

/-- A session that has started at `offset`, over the files it has found. The file is its text, cut or
extended to the mapping. -/
structure Filled (offset : ℕ) (files : List UInt8 → List UInt8) (f : LogFile) (s : FileState) : Prop where
  mapped : s.mapped = true
  filepath : s.filepath = f.filepath
  others : ∀ path, path ≠ f.filepath → s.files path = files path
  file : s.file = ftruncate s.mmapSize (f.text offset)
  currentOffset : s.currentOffset = offset + f.lines.length
  size_ge : 288 ≤ s.mmapSize
  dropped_le : f.dropped ≤ f.messages.length
  room : offset + f.lines.length ≤ s.mmapSize ∨ f.dropped = f.messages.length ∧ s.mmapSize = f.mmapSize * 2 ^ f.dropped
  bound : f.dropped = 0 ∨ f.mmapSize * 2 ^ f.dropped < offset + 288

namespace Filled
variable {offset : ℕ} {files : List UInt8 → List UInt8} {f : LogFile} {s : FileState}

lemma init (filepath : List UInt8) {mmapSize : ℕ} (hsize : 288 ≤ mmapSize) (hstopped : s.running = false) :
    Filled s.currentOffset s.files ⟨⟨filepath,mmapSize,[]⟩,0⟩ (s.init filepath mmapSize) := by
  have hinit : s.init filepath mmapSize = { s with
      files := Function.update s.files filepath (ftruncate mmapSize []), filepath := filepath,
      mmapSize := mmapSize, mapped := true, running := true } := by
    simp [FileState.init,hstopped,FileState.setFile]
  rw [hinit]
  refine ⟨rfl,rfl,fun path hpath => Function.update_of_ne hpath _ _,?_,?_,hsize,le_rfl,.inr ⟨rfl,?_⟩,.inl rfl⟩
  · have hnil : ftruncate mmapSize [] = List.replicate mmapSize 0 := ftruncate_zeros mmapSize 0
    simp [FileState.file,LogFile.text,LogFile.lines,hnil,ftruncate_zeros]
  · simp [LogFile.lines]
  · simp

/-- Where the text does not fit the mapping it is nothing but zeros. -/
lemma text_cases (h : Filled offset files f s) : (f.text offset).length ≤ s.mmapSize ∨ f.text offset = List.replicate offset 0 := by
  rw [LogFile.length_text]
  refine h.room.imp_right fun hall => ?_
  rw [LogFile.text,LogFile.lines_eq_nil hall.1.ge,List.append_nil]

lemma reserve (h : Filled offset files f s) (len : ℕ) :
    (s.reserve len).mapped = true ∧ (s.reserve len).filepath = f.filepath ∧
      (∀ path, path ≠ f.filepath → (s.reserve len).files path = files path) ∧
      (s.reserve len).file = ftruncate (s.reserve len).mmapSize (f.text offset) ∧
      (s.reserve len).currentOffset = offset + f.lines.length ∧
      (s.reserve len).mmapSize = if s.mmapSize < offset + f.lines.length + len then s.mmapSize * 2 else s.mmapSize := by
  rw [FileState.reserve,h.currentOffset]
  split
  · have hfile : s.resizeMmap.file = ftruncate (s.mmapSize * 2) s.file := Function.update_self _ _ _
    refine ⟨h.mapped,h.filepath,fun path hpath => ?_,?_,h.currentOffset,rfl⟩
    · rw [← h.others path hpath]
      exact Function.update_of_ne (h.filepath ▸ hpath) _ _
    · rw [hfile,h.file]
      change _ = ftruncate (s.mmapSize * 2) _
      rcases h.text_cases with hfits | hzeros
      · exact ftruncate_ftruncate hfits (by omega)
      · rw [hzeros,ftruncate_zeros,ftruncate_zeros,ftruncate_zeros]
  · exact ⟨h.mapped,h.filepath,h.others,h.file,h.currentOffset,rfl⟩

/-- One message: its line is added, or it is dropped as all messages before it. -/
theorem writeToFile (h : Filled offset files f s) (msg : LogMessage) : ∃ s' dropped,
    s.writeToFile msg = some s' ∧ Filled offset files (f.written msg dropped) s' := by
  have hline := msg.length_line_le
  have hsize := h.size_ge
  have hwrite := writeToFile_eq s msg
  obtain ⟨hmapped,hpath,hothers,hfile,hoffset,hmmap⟩ := h.reserve msg.line.length
  generalize s.reserve msg.line.length = u at hwrite hmapped hpath hothers hfile hoffset hmmap
  have hge : s.mmapSize ≤ u.mmapSize := by
    rw [hmmap]
    split <;> omega
  by_cases hroom : offset + f.lines.length + msg.line.length ≤ u.mmapSize
  · refine ⟨_,f.dropped,hwrite,?_⟩
    rw [hoffset,if_pos ⟨hmapped,hroom⟩]
    have hlines := LogFile.lines_written h.dropped_le msg
    have htext : (f.written msg f.dropped).text offset = f.text offset ++ msg.line := by
      rw [LogFile.text,LogFile.text,hlines,List.append_assoc]
    refine ⟨?_,hpath,fun path hne => ?_,?_,?_,?_,?_,.inl ?_,h.bound⟩
    · rw [append_mapped,hmapped]
    · rw [← hothers path hne]
      exact Function.update_of_ne (hpath ▸ hne) _ _
    · rw [append_file,hfile,hoffset,append_mmapSize,htext,← LogFile.length_text]
      exact overwrite_ftruncate (by rwa [LogFile.length_text])
    · rw [append_currentOffset,hoffset,hlines,List.length_append,Nat.add_assoc]
    · rw [append_mmapSize]
      omega
    · simpa [LogFile.written] using Nat.le_succ_of_le h.dropped_le
    · rw [append_mmapSize,hlines,List.length_append,← Nat.add_assoc]
      exact hroom
  · -- the offset lies so far behind the mapping that nothing of this session has found room yet
    have hgrown : s.mmapSize < offset + f.lines.length + msg.line.length := by omega
    rw [if_pos hgrown] at hmmap
    have hnone : f.dropped = f.messages.length ∧ s.mmapSize = f.mmapSize * 2 ^ f.dropped := by
      rcases h.room with hfits | hnone
      · omega
      · exact hnone
    have hnil := LogFile.lines_eq_nil hnone.1.ge
    have hnil' : (f.written msg (f.dropped + 1)).lines = [] :=
      LogFile.lines_eq_nil (by simp [LogFile.written,hnone.1])
    rw [hnil,List.length_nil,Nat.add_zero] at hroom hoffset
    have hdouble : f.mmapSize * 2 ^ (f.dropped + 1) = u.mmapSize := by
      rw [hmmap,pow_succ,← Nat.mul_assoc,hnone.2]
    refine ⟨_,f.dropped + 1,hwrite,?_⟩
    rw [hoffset,if_neg fun hcopy => hroom hcopy.2]
    refine ⟨hmapped,hpath,hothers,?_,?_,?_,?_,.inr ⟨?_,hdouble.symm⟩,.inr ?_⟩
    · rw [hfile,LogFile.text,LogFile.text,hnil,hnil']
    · rw [hoffset,hnil',List.length_nil,Nat.add_zero]
    · omega
    · simp [LogFile.written,hnone.1]
    · simp [LogFile.written,hnone.1]
    · change f.mmapSize * 2 ^ (f.dropped + 1) < _
      omega

theorem close (h : Filled offset files f s) : s.close.mapped = false ∧ s.close.currentOffset = s.currentOffset ∧
    s.close.files = Function.update files f.filepath (f.text offset) := by
  have hclose : s.close = { s.setFile (ftruncate s.currentOffset s.file) with mapped := false } := by
    rw [FileState.close,if_pos h.mapped]
  have htext : ftruncate s.currentOffset s.file = f.text offset := by
    rw [h.file,h.currentOffset,← LogFile.length_text]
    rcases h.text_cases with hfits | hzeros
    · exact ftruncate_back hfits
    · rw [hzeros,ftruncate_zeros,ftruncate_zeros,List.length_replicate]
  rw [hclose]
  refine ⟨rfl,rfl,?_⟩
  ext1 path
  by_cases hpath : path = f.filepath
  · rw [hpath,Function.update_self,← htext,← h.filepath]
    exact Function.update_self s.filepath _ s.files
  · rw [Function.update_of_ne hpath,← h.others path hpath]
    exact Function.update_of_ne (h.filepath ▸ hpath) _ _

end Filled

/-- Only while the mapping does not reach the offset a message is dropped. -/
def LogFile.FewDropped (f : LogFile) (offset : ℕ) : Prop :=
  f.dropped ≤ f.messages.length ∧ (f.dropped = 0 ∨ f.mmapSize * 2 ^ f.dropped < offset + 288)

/-- The file as the sessions so far explain it. -/
inductive Shown (files : List UInt8 → List UInt8) : List LogFile → FileState → Prop
  | closed {log : List LogFile} {s : FileState} (unmapped : s.mapped = false)
      (left : disk files log = (s.currentOffset,s.files)) : Shown files log s
  | filled {log : List LogFile} {f : LogFile} {s : FileState}
      (filled : Filled (disk files log).1 (disk files log).2 f s) : Shown files (log ++ [f]) s

section Shown
variable {files : List UInt8 → List UInt8} {log : List LogFile} {s : FileState}

lemma Shown.closed_of_unmapped (h : Shown files log s) (hmapped : s.mapped = false) :
    disk files log = (s.currentOffset,s.files) := by
  cases h with
  | closed unmapped left => exact left
  | filled filled =>
    rw [filled.mapped] at hmapped
    contradiction

lemma Shown.filled_of_mapped (h : Shown files log s) (hmapped : s.mapped = true) :
    ∃ pre f, log = pre ++ [f] ∧ Filled (disk files pre).1 (disk files pre).2 f s := by
  cases h with
  | closed unmapped left =>
    rw [unmapped] at hmapped
    contradiction
  | @filled pre f _ filled => exact ⟨pre,f,rfl,filled⟩

lemma Shown.setRunning (h : Shown files log s) (running : Bool) : Shown files log { s with running := running } := by
  cases h with
  | closed unmapped left => exact .closed unmapped left
  | filled filled =>
    obtain ⟨hmapped,hpath,hothers,hfile,hoffset,hsize,hdropped,hroom,hbound⟩ := filled
    exact .filled ⟨hmapped,hpath,hothers,hfile,hoffset,hsize,hdropped,hroom,hbound⟩

lemma Shown.close (h : Shown files log s) : s.close.mapped = false ∧ disk files log = (s.currentOffset,s.close.files) := by
  cases h with
  | closed unmapped left =>
    have hclose : s.close = s := by simp [FileState.close,unmapped]
    rw [hclose]
    exact ⟨unmapped,left⟩
  | filled filled =>
    obtain ⟨hmapped,_,hfiles⟩ := filled.close
    rw [disk_concat,hfiles,filled.currentOffset]
    exact ⟨hmapped,rfl⟩

end Shown

namespace Logger

def record (sessions : List Opened) : Entry → List Opened
  | .opened filepath mmapSize => sessions ++ [⟨filepath,mmapSize,[]⟩]
  | .thread (.written _ msg) => sessions.modifyLast fun x => { x with messages := x.messages ++ [msg] }
  | _ => sessions

/-- The sessions of a run, one after another. -/
def sessions (entries : List Entry) : List Opened := entries.foldl record []

lemma sessions_concat (entries : List Entry) (e : Entry) : sessions (entries ++ [e]) = record (sessions entries) e := by
  rw [sessions,List.foldl_append]
  rfl

/-- A log of the sessions so far that accounts for every message and for the files. -/
structure Recorded (files : List UInt8 → List UInt8) (log : List LogFile) (entries : List Entry) (s : Logger) :
    Prop where
  sessions : log.map LogFile.toOpened = sessions entries
  written : log.flatMap (·.messages) = allWritten entries
  few : ∀ pre f post, log = pre ++ f :: post → f.FewDropped (disk files pre).1
  out : Shown files log s.out

variable {files : List UInt8 → List UInt8} {log : List LogFile} {entries : List Entry} {s s' : Logger} {a : Call}
  {e : Entry}

lemma recorded_fresh (files : List UInt8 → List UInt8) : Recorded files [] [] (fresh files) :=
  ⟨rfl,rfl,by simp,.closed rfl rfl⟩

/-- The last session is a new or a longer one. -/
lemma few_concat {f : LogFile} (h : ∀ pre g post, log = pre ++ g :: post → g.FewDropped (disk files pre).1)
    (hf : f.FewDropped (disk files log).1) :
    ∀ pre g post, log ++ [f] = pre ++ g :: post → g.FewDropped (disk files pre).1 := by
  intro pre g post hsplit
  cases post using List.reverseRecOn with
  | nil =>
    obtain ⟨rfl,heq⟩ := List.append_inj' hsplit rfl
    obtain rfl := List.singleton_inj.mp heq
    exact hf
  | append_singleton post last =>
    rw [← List.cons_append,← List.append_assoc] at hsplit
    exact h pre g post (List.append_inj' hsplit rfl).1

/-- A step that leaves the file and the sessions alone. -/
lemma Recorded.silent (h : Recorded files log entries s) (hout : Shown files log s'.out)
    (hsessions : record (Logger.sessions entries) e = Logger.sessions entries) (hwritten : allWritten [e] = []) :
    Recorded files log (entries ++ [e]) s' :=
  ⟨by rw [sessions_concat,hsessions,h.sessions],by rw [allWritten_append,hwritten,List.append_nil,h.written],h.few,hout⟩

theorem Recorded.step (h : Recorded files log entries s) (hsync : Sync s) (heffect : Effect s a e s')
    (hsize : ∀ filepath mmapSize, a = .init filepath mmapSize → 288 ≤ mmapSize) :
    ∃ log', Recorded files log' (entries ++ [e]) s' := by
  cases heffect with
  | emptied filepath => exact absurd (hsize filepath 0 rfl) (by decide)
  | opened filepath mmapSize free stopped =>
    have hsize := hsize filepath mmapSize rfl
    have hleft := h.out.closed_of_unmapped (hsync.unmapped free stopped)
    have hfilled := Filled.init (s := s.out) filepath hsize (hsync.running.trans stopped)
    refine ⟨log ++ [⟨⟨filepath,mmapSize,[]⟩,0⟩],?_,?_,few_concat h.few ⟨le_rfl,.inl rfl⟩,.filled ?_⟩
    · rw [sessions_concat,List.map_append,h.sessions]
      rfl
    · simpa [allWritten] using h.written
    · rw [hleft]
      exact hfilled
  | closed joining exited =>
    have hclose := h.out.close
    have hoffset : s.out.close.currentOffset = s.out.currentOffset := by
      unfold FileState.close
      split <;> rfl
    exact ⟨log,h.silent (.closed hclose.1 (by rw [hoffset]; exact hclose.2)) rfl rfl⟩
  | popped activeQueues i rest idle msg queue out at_pc waiting writes =>
    obtain ⟨pre,f,rfl,hfilled⟩ := h.out.filled_of_mapped (hsync.mapped_of_background (by simp [at_pc]))
    obtain ⟨out',dropped,hwrite,hfilled'⟩ := hfilled.writeToFile msg
    obtain rfl := Option.some.inj (hwrite.symm.trans writes)
    refine ⟨pre ++ [f.written msg dropped],?_,?_,few_concat (fun pre' g post hsplit => ?_) ?_,.filled hfilled'⟩
    · have hold := h.sessions
      rw [List.map_append,List.map_singleton] at hold
      rw [sessions_concat,← hold,record,List.modifyLast_concat,List.map_append]
      rfl
    · have hold := h.written
      rw [List.flatMap_append,List.flatMap_singleton] at hold
      rw [allWritten_append,← hold,List.flatMap_append,List.flatMap_singleton,List.append_assoc]
      rfl
    · exact h.few pre' g (post ++ [f]) (by rw [hsplit]; simp)
    · exact ⟨hfilled'.dropped_le,hfilled'.bound⟩
  | asked running => exact ⟨log,h.silent (h.out.setRunning false) rfl rfl⟩
  | _ => exact ⟨log,h.silent h.out rfl rfl⟩

/-- Over the life of a process: the file of a session starts with as many zero bytes as the lines in
the files before it have, and behind them stand the lines of the messages passed to `writeToFile`, but
for a few first ones: those that found no room, for which the mapping had to double more than once. A
message of a thread is passed to `writeToFile` once and in order, or it is still waiting. -/
theorem files_of_run (files : List UInt8 → List UInt8) (calls : List Call) (entries : List Entry) (s : Logger)
    (hsize : ∀ filepath mmapSize, .init filepath mmapSize ∈ calls → 288 ≤ mmapSize)
    (hrun : run step (fresh files) calls = some (entries,s)) :
    (∃ log : List LogFile, log.map LogFile.toOpened = sessions entries ∧
      disk files log = (s.out.currentOffset,s.out.close.files) ∧
      ∀ pre f post, log = pre ++ f :: post → f.FewDropped (disk files pre).1) ∧
    ∀ tq ∈ s.threads.threadQueues,
      ((sessions entries).flatMap Opened.messages).filter (·.threadId = tq.threadId) ++ tq.queue =
        loggedBy tq.threadId entries := by
  have hall : Sync s ∧ Labelled entries s ∧ ∃ log, Recorded files log entries s := by
    refine run_induction (I := fun _ entries s => Sync s ∧ Labelled entries s ∧ ∃ log, Recorded files log entries s)
      ⟨sync_fresh files,labelled_fresh files,[],recorded_fresh files⟩ ?_ hrun
    rintro pre a post entries s e s' rfl _ ⟨hsync,hlabelled,log,hrecorded⟩ hstep
    have heffect := step_cases hstep
    refine ⟨hsync.step heffect,hlabelled.step heffect,hrecorded.step hsync heffect fun filepath mmapSize ha => ?_⟩
    exact hsize filepath mmapSize (by simp [ha])
  obtain ⟨_,hlabelled,log,hrecorded⟩ := hall
  refine ⟨⟨log,hrecorded.sessions,hrecorded.out.close.2,hrecorded.few⟩,fun tq htq => ?_⟩
  obtain ⟨i,hi⟩ := List.mem_iff_getElem?.mp htq
  have hid : s.threadIds[i]? = some tq.threadId := by rw [threadIds,List.getElem?_map,hi]; rfl
  have hcontent : s.threads.content i = tq.queue := by rw [State.content,hi]; rfl
  have hmessages : (sessions entries).flatMap Opened.messages = allWritten entries := by
    rw [← hrecorded.sessions,List.flatMap_map,← hrecorded.written]
  rw [hmessages,hlabelled.writtenBy_eq hid,hlabelled.loggedBy_eq hid,hlabelled.fifo,hcontent]

/-- A session with messages of these lengths. -/
def logTwo (filepath : List UInt8) (first second : ℕ) : List Call :=
  [.init filepath 288,.log 0 .info 1 (.ok (List.replicate first 97)),.log 0 .info 1 (.ok (List.replicate second 97))] ++
    List.replicate 5 .background ++ [.shutdown] ++ List.replicate 9 .background ++ [.join]

/-- Two sessions. Of the second one the first message is dropped, and behind 514 zero bytes its file has
the line of the other message. -/
theorem files_of_run_first_dropped :
    let calls := .registerThread 7 :: logTwo [97] 239 239 ++ logTwo [98] 45 1
    let line := asciiBytes "[1] [T:7] [INFO] a\n".toList
    ∃ entries s, run step (fresh fun _ => []) calls = some (entries,s) ∧
      s.out.close.files [98] = List.replicate 514 0 ++ line ∧
      ∃ log : List LogFile, log.map LogFile.toOpened = sessions entries ∧
        disk (fun _ => []) log = (s.out.currentOffset,s.out.close.files) ∧
        log.map (fun f => f.messages.length) = [2,2] := by
  intro calls line
  have hcalls : (run step (fresh fun _ => []) calls).map (fun p =>
      (p.2.out.close.files [98],(sessions p.1).map fun f => f.messages.length)) =
        some (List.replicate 514 0 ++ line,[2,2]) := by
    decide +kernel
  obtain ⟨⟨entries,s⟩,hrun,hends⟩ := Option.map_eq_some_iff.mp hcalls
  obtain ⟨hfile,hlengths⟩ := Prod.mk.inj hends
  have hsize : ∀ path first second filepath mmapSize, .init filepath mmapSize ∈ logTwo path first second →
      288 ≤ mmapSize := by simp [logTwo]
  have hinit : ∀ filepath mmapSize, .init filepath mmapSize ∈ calls → 288 ≤ mmapSize := by
    intro filepath mmapSize hmem
    rcases List.mem_append.mp hmem with hfirst | hsecond
    · exact hsize [97] 239 239 filepath mmapSize ((List.mem_cons.mp hfirst).resolve_left (by simp))
    · exact hsize _ _ _ filepath mmapSize hsecond
  obtain ⟨⟨log,hlog,hdisk,_⟩,_⟩ := files_of_run (fun _ => []) calls entries s hinit hrun
  refine ⟨entries,s,hrun,hfile,log,hlog,hdisk,?_⟩
  rw [← hlengths,← hlog,List.map_map]
  rfl

end Logger
end TickToTrade.AsyncLogger
