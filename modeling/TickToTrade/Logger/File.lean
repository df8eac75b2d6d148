import TickToTrade.Logger.Message
import Mathlib.Logic.Function.Basic

/-! The logger and its file. The file is mapped shared, so a write to the mapping is a write to the
file; opening, truncating, mapping and remapping are taken to succeed. A read past the line buffer
has no result. -/
namespace TickToTrade.AsyncLogger

/-- `ftruncate`: cut, or extended with zero bytes. -/
def ftruncate (size : ℕ) (bytes : List UInt8) : List UInt8 :=
  bytes.take size ++ List.replicate (size - bytes.length) 0

/-- `memcpy` to an offset of the mapping. -/
def overwrite (bytes : List UInt8) (offset : ℕ) (new : List UInt8) : List UInt8 :=
  bytes.take offset ++ new ++ bytes.drop (offset + new.length)

/-- The fields that say where the next line goes, with the files on disk by name. `mapped` says
that `mmap_ptr_` is not `MAP_FAILED`. -/
structure FileState where
  files : List UInt8 → List UInt8
  filepath : List UInt8
  mmapSize : ℕ
  currentOffset : ℕ
  mapped : Bool
  running : Bool

namespace FileState

/-- The constructor of the singleton. -/
def fresh (files : List UInt8 → List UInt8) : FileState := ⟨files,[],0,0,false,false⟩

/-- The file that is mapped. -/
def file (s : FileState) : List UInt8 := s.files s.filepath

def setFile (s : FileState) (bytes : List UInt8) : FileState :=
  { s with files := Function.update s.files s.filepath bytes }

/-- `init`: the file is opened empty and extended to the size of the mapping. -/
def init (s : FileState) (filepath : List UInt8) (mmapSize : ℕ) : FileState :=
  if s.running then s
  else
    let s := { s with filepath := filepath, mmapSize := mmapSize }
    let s := s.setFile (ftruncate s.mmapSize [])
    { s with mapped := true, running := true }

/-- The mapping grows to twice its size. -/
def resizeMmap (s : FileState) : FileState :=
  { s.setFile (ftruncate (s.mmapSize * 2) s.file) with mmapSize := s.mmapSize * 2 }

/-- Room for `len` more bytes is asked for once. -/
def reserve (s : FileState) (len : ℕ) : FileState :=
  if s.mmapSize < s.currentOffset + len then s.resizeMmap else s

/-- Copy the bytes to the offset, and move it by `len`. -/
def append (s : FileState) (bytes : List UInt8) (len : ℕ) : FileState :=
  { s.setFile (overwrite s.file s.currentOffset bytes) with currentOffset := s.currentOffset + len }

def lineBuffer : ℕ := 512

/-- `writeToFile`; a line for which there is still no room is dropped. -/
def writeToFile (s : FileState) (msg : LogMessage) : Option FileState :=
  let buffer := snprintf lineBuffer msg.line
  let len := msg.line.length
  let s := s.reserve len
  if s.mapped = true ∧ s.currentOffset + len ≤ s.mmapSize then
    if len ≤ lineBuffer then some (s.append (buffer.take len) len) else none
  else some s

/-- `shutdown`, after the background thread has been joined. -/
def shutdown (s : FileState) : FileState :=
  if s.running = false then s
  else
    let s := { s with running := false }
    if s.mapped then { s.setFile (ftruncate s.currentOffset s.file) with mapped := false } else s

end FileState

/-- One use of the logger: `init`, the messages that reach `writeToFile`, and `shutdown`. -/
structure Session where
  filepath : List UInt8
  mmapSize : ℕ
  messages : List LogMessage
  size_ge : 1024 ≤ mmapSize

/-- The lines of the session, one after another. -/
def Session.lines (x : Session) : List UInt8 := x.messages.flatMap LogMessage.line

def FileState.session (s : FileState) (x : Session) : Option FileState := do
  let s ← x.messages.foldlM FileState.writeToFile (s.init x.filepath x.mmapSize)
  some s.shutdown

section Bytes
variable {bytes new : List UInt8} {n offset : ℕ}

@[simp] lemma length_ftruncate (n : ℕ) (bytes : List UInt8) : (ftruncate n bytes).length = n := by
  simp only [ftruncate,List.length_append,List.length_take,List.length_replicate]
  omega

lemma take_ftruncate {m : ℕ} (hm : m ≤ n) (hlength : m ≤ bytes.length) : (ftruncate n bytes).take m = bytes.take m := by
  rw [ftruncate,List.take_append_of_le_length (by rw [List.length_take]; omega),List.take_take,Nat.min_eq_left hm]

lemma length_overwrite (h : offset + new.length ≤ bytes.length) :
    (overwrite bytes offset new).length = bytes.length := by
  simp only [overwrite,List.length_append,List.length_take,List.length_drop]
  omega

lemma take_overwrite (h : offset ≤ bytes.length) :
    (overwrite bytes offset new).take (offset + new.length) = bytes.take offset ++ new := by
  have hlength : (bytes.take offset ++ new).length = offset + new.length := by
    simp only [List.length_append,List.length_take]
    omega
  rw [overwrite,← hlength]
  exact List.take_left

lemma take_one_overwrite (h : 0 < offset) (hbytes : bytes ≠ []) : (overwrite bytes offset new).take 1 = bytes.take 1 := by
  cases bytes with
  | nil => contradiction
  | cons b bytes =>
    obtain ⟨k,rfl⟩ : ∃ k, offset = k + 1 := ⟨offset - 1,by omega⟩
    simp [overwrite]

lemma length_line_lt (msg : LogMessage) : msg.line.length < FileState.lineBuffer := by
  have hline := msg.length_line_le
  unfold FileState.lineBuffer
  omega

lemma snprintf_take {text : List UInt8} (h : text.length < n) : (snprintf n text).take text.length = text := by
  rw [snprintf,List.take_of_length_le (by omega : text.length ≤ n - 1)]
  exact List.take_left

end Bytes

@[simp] lemma FileState.file_setFile (s : FileState) (bytes : List UInt8) : (s.setFile bytes).file = bytes :=
  Function.update_self _ _ _

/-- While the logger runs: all of the file is mapped. -/
structure Mapped (s : FileState) (filepath : List UInt8) : Prop where
  running : s.running = true
  mapped : s.mapped = true
  filepath_eq : s.filepath = filepath
  size_ge : 1024 ≤ s.mmapSize
  length_file : s.file.length = s.mmapSize

/-- The lines written so far fill the file up to the offset. -/
structure Holds (s : FileState) (filepath text : List UInt8) : Prop extends Mapped s filepath where
  offset_le : s.currentOffset ≤ s.mmapSize
  offset_eq : s.currentOffset = text.length
  text_eq : s.file.take s.currentOffset = text

/-- The offset does not start at zero, so nothing is ever written over the first byte. -/
structure Displaced (s : FileState) (filepath : List UInt8) : Prop extends Mapped s filepath where
  offset_pos : 0 < s.currentOffset
  first_zero : s.file.take 1 = [0]

section Sessions
variable {s : FileState} {filepath text : List UInt8}

lemma mapped_init (h : s.running = false) (filepath : List UInt8) {mmapSize : ℕ} (hsize : 1024 ≤ mmapSize) :
    Mapped (s.init filepath mmapSize) filepath ∧ (s.init filepath mmapSize).currentOffset = s.currentOffset ∧
      (s.init filepath mmapSize).file = ftruncate mmapSize [] := by
  have hinit : s.init filepath mmapSize = { s with
      files := Function.update s.files filepath (ftruncate mmapSize []), filepath := filepath,
      mmapSize := mmapSize, mapped := true, running := true } := by
    simp [FileState.init,h,FileState.setFile]
  have hfile : (s.init filepath mmapSize).file = ftruncate mmapSize [] := by
    rw [hinit]
    exact Function.update_self _ _ _
  refine ⟨⟨?_,?_,?_,?_,?_⟩,?_,hfile⟩
  · rw [hinit]
  · rw [hinit]
  · rw [hinit]
  · rw [hinit]
    exact hsize
  · rw [hfile,length_ftruncate,hinit]
  · rw [hinit]

lemma Mapped.reserve (h : Mapped s filepath) (len : ℕ) :
    Mapped (s.reserve len) filepath ∧ (s.reserve len).currentOffset = s.currentOffset ∧
      s.mmapSize ≤ (s.reserve len).mmapSize ∧
      (s.currentOffset ≤ s.mmapSize → len ≤ 1024 → s.currentOffset + len ≤ (s.reserve len).mmapSize) ∧
      ∀ m ≤ s.mmapSize, (s.reserve len).file.take m = s.file.take m := by
  have hsize := h.size_ge
  unfold FileState.reserve
  split
  · have hfile : s.resizeMmap.file = ftruncate (s.mmapSize * 2) s.file := Function.update_self _ _ _
    have hgrown : s.resizeMmap.mmapSize = s.mmapSize * 2 := rfl
    refine ⟨⟨h.running,h.mapped,h.filepath_eq,?_,?_⟩,rfl,?_,?_,?_⟩
    · omega
    · rw [hfile,length_ftruncate,hgrown]
    · omega
    · omega
    · intro m hm
      rw [hfile,take_ftruncate (by omega) (by rw [h.length_file]; omega)]
  · exact ⟨h,rfl,Nat.le_refl _,by omega,fun _ _ => rfl⟩

@[simp] lemma append_currentOffset (s : FileState) (bytes : List UInt8) (n : ℕ) :
    (s.append bytes n).currentOffset = s.currentOffset + n := rfl

@[simp] lemma append_mmapSize (s : FileState) (bytes : List UInt8) (n : ℕ) :
    (s.append bytes n).mmapSize = s.mmapSize := rfl

@[simp] lemma append_mapped (s : FileState) (bytes : List UInt8) (n : ℕ) : (s.append bytes n).mapped = s.mapped := rfl

@[simp] lemma append_file (s : FileState) (bytes : List UInt8) (n : ℕ) :
    (s.append bytes n).file = overwrite s.file s.currentOffset bytes := Function.update_self _ _ _

lemma Mapped.append (h : Mapped s filepath) {bytes : List UInt8}
    (hfits : s.currentOffset + bytes.length ≤ s.mmapSize) :
    Mapped (s.append bytes bytes.length) filepath ∧
      (s.append bytes bytes.length).file = overwrite s.file s.currentOffset bytes := by
  refine ⟨⟨h.running,h.mapped,h.filepath_eq,h.size_ge,?_⟩,append_file s bytes _⟩
  rw [append_file,length_overwrite (by rw [h.length_file]; exact hfits),h.length_file]
  rfl

/-- `writeToFile` returns, as a line is always shorter than its buffer: the line goes to the offset,
or is dropped where there is no room. -/
lemma writeToFile_eq (s : FileState) (msg : LogMessage) :
    s.writeToFile msg = some (if (s.reserve msg.line.length).mapped = true ∧
        (s.reserve msg.line.length).currentOffset + msg.line.length ≤ (s.reserve msg.line.length).mmapSize then
      (s.reserve msg.line.length).append msg.line msg.line.length else s.reserve msg.line.length) := by
  have hbuffer := length_line_lt msg
  simp only [FileState.writeToFile,snprintf_take hbuffer,Nat.le_of_lt hbuffer,if_true]
  split <;> rfl

lemma Mapped.writeToFile (h : Mapped s filepath) (msg : LogMessage) :
    s.writeToFile msg = some (if s.currentOffset + msg.line.length ≤ (s.reserve msg.line.length).mmapSize then
      (s.reserve msg.line.length).append msg.line msg.line.length else s.reserve msg.line.length) := by
  obtain ⟨hreserve,hoffset,_⟩ := h.reserve msg.line.length
  rw [writeToFile_eq]
  simp only [hreserve.mapped,hoffset,true_and]

/-- Where the offset stands at the end of the lines, the next line follows them. -/
theorem Holds.writeToFile (h : Holds s filepath text) (msg : LogMessage) :
    ∃ s', s.writeToFile msg = some s' ∧ Holds s' filepath (text ++ msg.line) := by
  obtain ⟨hreserve,hoffset,hgrows,hroom,htake⟩ := h.toMapped.reserve msg.line.length
  have hline := msg.length_line_le
  have hfits := hroom h.offset_le (by omega)
  refine ⟨_,h.toMapped.writeToFile msg,?_⟩
  rw [if_pos hfits]
  rw [← hoffset] at hfits
  obtain ⟨hmapped,hfile⟩ := hreserve.append hfits
  refine ⟨hmapped,?_,?_,?_⟩
  · rw [append_currentOffset,append_mmapSize]
    exact hfits
  · rw [append_currentOffset,List.length_append,← h.offset_eq,← hoffset]
  · rw [hfile,append_currentOffset,take_overwrite (by rw [hreserve.length_file]; omega),hoffset,
      htake _ h.offset_le,h.text_eq]

/-- A displaced offset never comes back to the first byte. -/
theorem Displaced.writeToFile (h : Displaced s filepath) (msg : LogMessage) :
    ∃ s', s.writeToFile msg = some s' ∧ Displaced s' filepath := by
  obtain ⟨hreserve,hoffset,hgrows,_,htake⟩ := h.toMapped.reserve msg.line.length
  have hpos := h.offset_pos
  have hsize := h.size_ge
  have hzero : (s.reserve msg.line.length).file.take 1 = [0] := by rw [htake 1 (by omega),h.first_zero]
  refine ⟨_,h.toMapped.writeToFile msg,?_⟩
  split
  · rename_i hfits
    rw [← hoffset] at hfits
    obtain ⟨hmapped,hfile⟩ := hreserve.append hfits
    have hfirst : (s.reserve msg.line.length).file ≠ [] := by
      intro hnil
      rw [hnil] at hzero
      simp at hzero
    refine ⟨hmapped,?_,?_⟩
    · rw [append_currentOffset]
      omega
    · rw [hfile,take_one_overwrite (by omega) hfirst,hzero]
  · exact ⟨hreserve,by rw [hoffset]; exact hpos,hzero⟩

lemma Holds.writeAll (messages : List LogMessage) (h : Holds s filepath text) :
    ∃ s', messages.foldlM FileState.writeToFile s = some s' ∧
      Holds s' filepath (text ++ messages.flatMap LogMessage.line) := by
  induction messages generalizing s text with
  | nil => exact ⟨s,rfl,by simpa using h⟩
  | cons msg messages ih =>
    obtain ⟨s₁,hwrite,h₁⟩ := h.writeToFile msg
    obtain ⟨s',hrest,h'⟩ := ih h₁
    refine ⟨s',?_,by simpa using h'⟩
    rw [List.foldlM_cons,hwrite]
    exact hrest

lemma Displaced.writeAll (messages : List LogMessage) (h : Displaced s filepath) :
    ∃ s', messages.foldlM FileState.writeToFile s = some s' ∧ Displaced s' filepath := by
  induction messages generalizing s with
  | nil => exact ⟨s,rfl,h⟩
  | cons msg messages ih =>
    obtain ⟨s₁,hwrite,h₁⟩ := h.writeToFile msg
    obtain ⟨s',hrest,h'⟩ := ih h₁
    refine ⟨s',?_,h'⟩
    rw [List.foldlM_cons,hwrite]
    exact hrest

lemma Mapped.shutdown (h : Mapped s filepath) :
    s.shutdown.running = false ∧ s.shutdown.currentOffset = s.currentOffset ∧
      s.shutdown.files filepath = ftruncate s.currentOffset s.file := by
  have hshutdown : s.shutdown = { s with
      files := Function.update s.files filepath (ftruncate s.currentOffset s.file), mapped := false,
      running := false } := by
    simp [FileState.shutdown,h.running,h.mapped,FileState.setFile,FileState.file,h.filepath_eq]
  rw [hshutdown]
  exact ⟨rfl,rfl,Function.update_self _ _ _⟩

/-- A session that starts at offset zero leaves exactly its lines. -/
theorem session_of_offset_zero (hidle : s.running = false) (hoffset : s.currentOffset = 0) (x : Session) :
    ∃ s', s.session x = some s' ∧ s'.running = false ∧ s'.currentOffset = x.lines.length ∧
      s'.files x.filepath = x.lines := by
  obtain ⟨hmapped,hkept,_⟩ := mapped_init hidle x.filepath x.size_ge
  have hstart : Holds (s.init x.filepath x.mmapSize) x.filepath [] :=
    ⟨hmapped,by omega,by rw [hkept,hoffset]; rfl,by rw [hkept,hoffset,List.take_zero]⟩
  obtain ⟨s₁,hwritten,h₁⟩ := hstart.writeAll x.messages
  rw [List.nil_append] at h₁
  obtain ⟨hstopped,hsame,hfile⟩ := h₁.toMapped.shutdown
  have hlength : s₁.currentOffset = x.lines.length := h₁.offset_eq
  refine ⟨s₁.shutdown,?_,hstopped,hsame.trans hlength,?_⟩
  · rw [FileState.session,hwritten]
    rfl
  · rw [hfile,ftruncate,h₁.text_eq,h₁.length_file,Nat.sub_eq_zero_of_le h₁.offset_le,List.replicate_zero,
      List.append_nil]
    rfl

lemma line_ne_nil (msg : LogMessage) : msg.line ≠ [] := by simp [LogMessage.line,asciiBytes]

lemma take_one_lines_ne (x : Session) : x.lines.take 1 ≠ [0] := by
  unfold Session.lines
  cases x.messages with
  | nil => simp
  | cons msg messages =>
    have hbracket : '['.toUInt8 ≠ 0 := by decide
    rw [List.flatMap_cons,LogMessage.line]
    simpa [asciiBytes] using hbracket

/-- A session that starts at another offset leaves a file that starts with a zero byte. -/
theorem session_of_offset_pos (hidle : s.running = false) (hoffset : 0 < s.currentOffset) (x : Session) :
    ∃ s', s.session x = some s' ∧ s'.files x.filepath ≠ x.lines := by
  obtain ⟨hmapped,hkept,hzeros⟩ := mapped_init hidle x.filepath x.size_ge
  have hsize := x.size_ge
  have hstart : Displaced (s.init x.filepath x.mmapSize) x.filepath := by
    refine ⟨hmapped,by omega,?_⟩
    obtain ⟨k,hk⟩ : ∃ k, x.mmapSize = k + 1 := ⟨x.mmapSize - 1,by omega⟩
    rw [hzeros,hk]
    simp [ftruncate,List.replicate_succ]
  obtain ⟨s₁,hwritten,h₁⟩ := hstart.writeAll x.messages
  obtain ⟨_,_,hfile⟩ := h₁.toMapped.shutdown
  refine ⟨s₁.shutdown,?_,fun heq => ?_⟩
  · rw [FileState.session,hwritten]
    rfl
  · have hlength := h₁.length_file
    have hge := h₁.size_ge
    have hfirst : (ftruncate s₁.currentOffset s₁.file).take 1 = s₁.file.take 1 :=
      take_ftruncate h₁.offset_pos (by omega)
    rw [← hfile,heq,h₁.first_zero] at hfirst
    exact take_one_lines_ne x hfirst

end Sessions

/-- Every session leaves in its file exactly its own lines. -/
def SessionsIndependent (s : FileState) (sessions : List Session) : Prop :=
  ∀ pre x post, sessions = pre ++ x :: post →
    ∃ s', (pre ++ [x]).foldlM FileState.session s = some s' ∧ s'.files x.filepath = x.lines

lemma sessionsIndependent_cons_iff {s s' : FileState} {x : Session} {rest : List Session}
    (hsession : s.session x = some s') :
    SessionsIndependent s (x :: rest) ↔ s'.files x.filepath = x.lines ∧ SessionsIndependent s' rest := by
  have hfold : ∀ ys : List Session, (x :: ys).foldlM FileState.session s = ys.foldlM FileState.session s' := by
    intro ys
    rw [List.foldlM_cons,hsession]
    rfl
  constructor
  · intro h
    refine ⟨?_,?_⟩
    · obtain ⟨s₁,hs₁,hfile⟩ := h [] x rest rfl
      rw [List.nil_append,hfold] at hs₁
      obtain rfl := Option.some.inj hs₁
      exact hfile
    · rintro pre y post rfl
      obtain ⟨s₁,hs₁,hfile⟩ := h (x :: pre) y post rfl
      rw [List.cons_append,hfold] at hs₁
      exact ⟨s₁,hs₁,hfile⟩
  · rintro ⟨hfile,hrest⟩ pre y post hsplit
    cases pre with
    | nil =>
      obtain ⟨rfl,_⟩ := List.cons.inj hsplit
      exact ⟨s',hfold [],hfile⟩
    | cons z pre =>
      obtain ⟨rfl,htail⟩ := List.cons.inj hsplit
      rw [List.cons_append,hfold]
      exact hrest pre y post htail

lemma lines_eq_nil_iff (x : Session) : x.lines.length = 0 ↔ x.messages = [] := by
  unfold Session.lines
  cases x.messages with
  | nil => simp
  | cons msg messages => simp [line_ne_nil]

lemma sessionsIndependent_iff_of_idle (sessions : List Session) {s : FileState} (hidle : s.running = false) :
    SessionsIndependent s sessions ↔
      (sessions = [] ∨ s.currentOffset = 0) ∧ ∀ x ∈ sessions.dropLast, x.messages = [] := by
  induction sessions generalizing s with
  | nil => simp [SessionsIndependent]
  | cons x rest ih =>
    rcases Nat.eq_zero_or_pos s.currentOffset with hzero | hpos
    · obtain ⟨s',hsession,hidle',hoffset',hfile⟩ := session_of_offset_zero hidle hzero x
      rw [sessionsIndependent_cons_iff hsession,ih hidle',hoffset',lines_eq_nil_iff]
      cases rest with
      | nil => simp [hfile,hzero]
      | cons y rest => simp [hfile,hzero]
    · obtain ⟨s',hsession,hfile⟩ := session_of_offset_pos hidle hpos x
      rw [sessionsIndependent_cons_iff hsession]
      simp [hfile,Nat.ne_of_gt hpos]

/-- The sessions of a process leave exactly their own lines if and only if no session before the
last one has written a message. -/
theorem sessions_independent_iff (files : List UInt8 → List UInt8) (sessions : List Session) :
    SessionsIndependent (.fresh files) sessions ↔ ∀ x ∈ sessions.dropLast, x.messages = [] := by
  rw [sessionsIndependent_iff_of_idle sessions rfl]
  exact and_iff_right (.inr rfl)

/-- One line in each of two sessions: the second is written behind the place where the first one
ended, and its file begins with zero bytes. -/
theorem second_session_displaced : ¬ SessionsIndependent (.fresh fun _ => [])
    [⟨[97],1024,[.log .info 7 1 (.ok [104,105])],by decide⟩,
      ⟨[98],1024,[.log .info 8 1 (.ok [104,105])],by decide⟩] := by
  rw [sessionsIndependent_iff_of_idle _ rfl]
  simp

end TickToTrade.AsyncLogger
