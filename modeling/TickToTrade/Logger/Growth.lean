import TickToTrade.Logger.File

/-! How the mapping of the log file grows. A line always fits the buffer it is printed into; whether
it also fits the mapping depends on one doubling, after which a line without room is dropped. -/
namespace TickToTrade.AsyncLogger

lemma getLast?_line (msg : LogMessage) : msg.line.getLast? = some '\n'.toUInt8 :=
  List.getLast?_concat

/-- The line of every message of `log` is shorter than the buffer of `writeToFile`: the buffer holds
all of it with its newline, and in every state of the logger the copy reads only what was printed. -/
theorem log_line_fits (level : LogLevel) (timestamp : UInt64) (localThreadId : UInt32) (formatted : FormatResult) :
    let msg := LogMessage.log level timestamp localThreadId formatted
    let buffer := snprintf FileState.lineBuffer msg.line
    msg.payload.length ≤ 239 ∧ msg.line.length < FileState.lineBuffer ∧
      buffer.length ≤ FileState.lineBuffer ∧ msg.line.length < buffer.length ∧
      buffer.take msg.line.length = msg.line ∧
      (buffer.take msg.line.length).getLast? = some '\n'.toUInt8 ∧
      ∀ s : FileState, (s.writeToFile msg).isSome := by
  intro msg buffer
  have hline := length_line_lt msg
  have htake : buffer.take msg.line.length = msg.line := snprintf_take hline
  have hlength : buffer.length = msg.line.length + 1 := by
    simp only [buffer,snprintf,List.length_append,List.length_take,List.length_singleton]
    omega
  refine ⟨?_,hline,by omega,by omega,htake,?_,?_⟩
  · have hfits := msg.fits
    unfold maxLogPayload at hfits
    omega
  · rw [htake,getLast?_line]
  · intro s
    rw [writeToFile_eq]
    rfl

/-- Nothing is lost: after every number of writes the file starts with the text and the lines of the
messages written so far, and the offset stands behind them inside the mapping. -/
def Kept (s : FileState) (text : List UInt8) (messages : List LogMessage) : Prop :=
  ∀ pre, pre <+: messages → ∃ s', pre.foldlM FileState.writeToFile s = some s' ∧
    s'.currentOffset ≤ s'.mmapSize ∧ s'.file.take s'.currentOffset = text ++ pre.flatMap LogMessage.line

/-- Twice each size of the mapping that the text fits has room for the line as well. -/
def DoublingFits (mmapSize : ℕ) (text line : List UInt8) : Prop :=
  ∀ j, text.length ≤ mmapSize * 2 ^ j → text.length + line.length ≤ mmapSize * 2 ^ (j + 1)

/-- The text fills the mapping up to the offset, and the mapping was doubled no more often than the
text needs. -/
structure Grown (s : FileState) (mmapSize : ℕ) (text : List UInt8) : Prop where
  mapped : s.mapped = true
  length_file : s.file.length = s.mmapSize
  offset_eq : s.currentOffset = text.length
  text_le : text.length ≤ s.mmapSize
  text_eq : s.file.take s.currentOffset = text
  doubled : ∃ j, s.mmapSize = mmapSize * 2 ^ j
  least : ∀ j, text.length ≤ mmapSize * 2 ^ j → s.mmapSize ≤ mmapSize * 2 ^ j

section Growth
variable {s : FileState} {mmapSize : ℕ} {text : List UInt8} {msg : LogMessage}

lemma grown_init (files : List UInt8 → List UInt8) (filepath : List UInt8) (mmapSize : ℕ) :
    Grown ((FileState.fresh files).init filepath mmapSize) mmapSize [] where
  mapped := rfl
  length_file := by
    have hfile : ((FileState.fresh files).init filepath mmapSize).file = ftruncate mmapSize [] :=
      Function.update_self _ _ _
    rw [hfile,length_ftruncate]
    rfl
  offset_eq := rfl
  text_le := Nat.zero_le _
  text_eq := List.take_zero
  doubled := ⟨0,(Nat.mul_one _).symm⟩
  least := fun j _ => Nat.le_mul_of_pos_right _ (Nat.two_pow_pos j)

/-- In a run the sizes to look at come down to the one the mapping has. -/
lemma Grown.doublingFits_iff (h : Grown s mmapSize text) (line : List UInt8) :
    DoublingFits mmapSize text line ↔ text.length + line.length ≤ s.mmapSize * 2 := by
  obtain ⟨j,hj⟩ := h.doubled
  constructor
  · intro hfits
    have hle := hfits j (hj ▸ h.text_le)
    rwa [pow_succ,← Nat.mul_assoc,← hj] at hle
  · intro hfits k hk
    have hle := h.least k hk
    rw [pow_succ,← Nat.mul_assoc]
    omega

lemma Grown.reserve (h : Grown s mmapSize text) (len : ℕ) :
    (s.reserve len).mapped = true ∧ (s.reserve len).currentOffset = text.length ∧
      (s.reserve len).file.length = (s.reserve len).mmapSize ∧
      (s.reserve len).file.take text.length = text ∧
      (s.reserve len).mmapSize = if s.mmapSize < text.length + len then s.mmapSize * 2 else s.mmapSize := by
  have htext := h.text_eq
  have hlength := h.length_file
  have hle := h.text_le
  rw [h.offset_eq] at htext
  rw [FileState.reserve,h.offset_eq]
  split
  · have hfile : s.resizeMmap.file = ftruncate (s.mmapSize * 2) s.file := Function.update_self _ _ _
    refine ⟨h.mapped,h.offset_eq,?_,?_,rfl⟩
    · rw [hfile,length_ftruncate]
      rfl
    · rw [hfile,take_ftruncate (by omega) (by omega),htext]
  · exact ⟨h.mapped,h.offset_eq,hlength,htext,rfl⟩

lemma Grown.writeToFile (h : Grown s mmapSize text) (hfits : DoublingFits mmapSize text msg.line) :
    ∃ s', s.writeToFile msg = some s' ∧ Grown s' mmapSize (text ++ msg.line) := by
  obtain ⟨hmapped,hoffset,hlength,htext,hsize⟩ := h.reserve msg.line.length
  obtain ⟨j,hj⟩ := h.doubled
  have htwice := (h.doublingFits_iff _).mp hfits
  have hroom : text.length + msg.line.length ≤ (s.reserve msg.line.length).mmapSize := by
    rw [hsize]
    split <;> omega
  refine ⟨_,writeToFile_eq s msg,?_⟩
  rw [hoffset,if_pos ⟨hmapped,hroom⟩]
  refine ⟨?_,?_,?_,?_,?_,?_,?_⟩
  · rw [append_mapped,hmapped]
  · rw [append_file,hoffset,length_overwrite (by omega),hlength,append_mmapSize]
  · rw [append_currentOffset,hoffset,List.length_append]
  · rw [List.length_append,append_mmapSize]
    exact hroom
  · rw [append_file,append_currentOffset,hoffset,take_overwrite (by omega),htext]
  · rw [append_mmapSize,hsize]
    split
    · exact ⟨j + 1,by rw [hj,pow_succ,Nat.mul_assoc]⟩
    · exact ⟨j,hj⟩
  · intro k hk
    rw [List.length_append] at hk
    have hle := h.least k (by omega)
    rw [append_mmapSize,hsize]
    split
    · -- the mapping was too small for the longer text, so a size that has room is a later one
      rename_i hgrow
      have hlater : j < k := by
        by_contra hk'
        have hpow : mmapSize * 2 ^ k ≤ mmapSize * 2 ^ j :=
          Nat.mul_le_mul_left _ (Nat.pow_le_pow_right (by decide) (Nat.not_lt.mp hk'))
        omega
      calc s.mmapSize * 2 = mmapSize * 2 ^ (j + 1) := by rw [hj,pow_succ,Nat.mul_assoc]
        _ ≤ mmapSize * 2 ^ k := Nat.mul_le_mul_left _ (Nat.pow_le_pow_right (by decide) hlater)
    · exact hle

lemma Grown.writeToFile_dropped (h : Grown s mmapSize text) (hfits : ¬ DoublingFits mmapSize text msg.line) :
    ∃ s', s.writeToFile msg = some s' ∧ s'.file.take s'.currentOffset = text := by
  obtain ⟨_,hoffset,_,htext,hsize⟩ := h.reserve msg.line.length
  rw [h.doublingFits_iff] at hfits
  have hroom : ¬ text.length + msg.line.length ≤ (s.reserve msg.line.length).mmapSize := by
    rw [hsize]
    split <;> omega
  refine ⟨_,writeToFile_eq s msg,?_⟩
  rw [hoffset,if_neg fun hcopy => hroom hcopy.2,hoffset,htext]

lemma kept_nil_iff :
    Kept s text [] ↔ s.currentOffset ≤ s.mmapSize ∧ s.file.take s.currentOffset = text := by
  constructor
  · intro h
    obtain ⟨s',hs',hkept⟩ := h [] (List.prefix_refl _)
    obtain rfl := Option.some.inj hs'
    simpa using hkept
  · intro h pre hpre
    rw [List.prefix_nil.mp hpre]
    exact ⟨s,rfl,by simpa using h⟩

lemma kept_cons_iff {s' : FileState} {messages : List LogMessage} (hwrite : s.writeToFile msg = some s') :
    Kept s text (msg :: messages) ↔ Kept s text [] ∧ Kept s' (text ++ msg.line) messages := by
  have hfold : ∀ pre : List LogMessage,
      (msg :: pre).foldlM FileState.writeToFile s = pre.foldlM FileState.writeToFile s' := by
    intro pre
    rw [List.foldlM_cons,hwrite]
    rfl
  constructor
  · intro h
    constructor
    · intro pre hpre
      exact h pre (hpre.trans (List.nil_prefix))
    · intro pre hpre
      have hkept := h (msg :: pre) (List.cons_prefix_cons.mpr ⟨rfl,hpre⟩)
      rwa [hfold,List.flatMap_cons,← List.append_assoc] at hkept
  · intro h pre hpre
    cases pre with
    | nil => exact h.1 [] (List.prefix_refl _)
    | cons first pre =>
      obtain ⟨rfl,hrest⟩ := List.cons_prefix_cons.mp hpre
      rw [hfold,List.flatMap_cons,← List.append_assoc]
      exact h.2 pre hrest

/-- Each message finds room behind the lines before it. -/
def AllFit (mmapSize : ℕ) (text : List UInt8) (messages : List LogMessage) : Prop :=
  ∀ pre msg, pre ++ [msg] <+: messages → DoublingFits mmapSize (text ++ pre.flatMap LogMessage.line) msg.line

lemma allFit_nil : AllFit mmapSize text [] := by
  intro pre msg hpre
  simp at hpre

lemma allFit_cons_iff {messages : List LogMessage} :
    AllFit mmapSize text (msg :: messages) ↔
      DoublingFits mmapSize text msg.line ∧ AllFit mmapSize (text ++ msg.line) messages := by
  constructor
  · intro h
    constructor
    · have hfirst := h [] msg (by simp)
      rwa [List.flatMap_nil,List.append_nil] at hfirst
    · intro pre next hpre
      have hnext := h (msg :: pre) next (by simpa using hpre)
      rwa [List.flatMap_cons,← List.append_assoc] at hnext
  · intro h pre next hpre
    cases pre with
    | nil =>
      obtain ⟨rfl,_⟩ := List.cons_prefix_cons.mp hpre
      rw [List.flatMap_nil,List.append_nil]
      exact h.1
    | cons first pre =>
      obtain ⟨rfl,hrest⟩ := List.cons_prefix_cons.mp hpre
      rw [List.flatMap_cons,← List.append_assoc]
      exact h.2 pre next hrest

lemma Grown.kept_nil (h : Grown s mmapSize text) : Kept s text [] := by
  rw [kept_nil_iff,h.offset_eq]
  exact ⟨h.text_le,by rw [← h.offset_eq,h.text_eq]⟩

/-- From a state of a run on, nothing is lost exactly when every line finds room. -/
lemma Grown.kept_iff (messages : List LogMessage) {s : FileState} {text : List UInt8} (h : Grown s mmapSize text) :
    Kept s text messages ↔ AllFit mmapSize text messages := by
  induction messages generalizing s text with
  | nil => exact iff_of_true h.kept_nil allFit_nil
  | cons msg messages ih =>
    rw [allFit_cons_iff]
    by_cases hfits : DoublingFits mmapSize text msg.line
    · obtain ⟨s',hwrite,h'⟩ := h.writeToFile hfits
      rw [kept_cons_iff hwrite,ih h']
      exact and_congr_left fun _ => iff_of_true h.kept_nil hfits
    · obtain ⟨s',hwrite,htext⟩ := h.writeToFile_dropped hfits
      refine iff_of_false (fun hkept => ?_) fun hall => hfits hall.1
      have hline := ((kept_cons_iff hwrite).mp hkept).2 [] List.nil_prefix
      obtain ⟨s₁,hs₁,_,hlines⟩ := hline
      obtain rfl := Option.some.inj hs₁
      rw [htext] at hlines
      simp [line_ne_nil] at hlines

end Growth

/-- A new log file loses nothing if and only if each line finds room: wherever the lines before it
fit the initial size doubled any number of times, they fit with it the size doubled once more. -/
theorem log_kept_iff (files : List UInt8 → List UInt8) (filepath : List UInt8) (mmapSize : ℕ)
    (messages : List LogMessage) :
    Kept ((FileState.fresh files).init filepath mmapSize) [] messages ↔
      ∀ pre msg, pre ++ [msg] <+: messages → ∀ j, (pre.flatMap LogMessage.line).length ≤ mmapSize * 2 ^ j →
        (pre.flatMap LogMessage.line).length + msg.line.length ≤ mmapSize * 2 ^ (j + 1) :=
  (grown_init files filepath mmapSize).kept_iff messages

/-- A file of one byte becomes one of two, and its first line is dropped. -/
theorem first_line_dropped : ¬ Kept ((FileState.fresh fun _ => []).init [97] 1) []
    [.log .info 7 1 (.ok [104,105])] := by
  rw [(grown_init (fun _ => []) [97] 1).kept_iff]
  intro h
  have hfits := h [] _ (List.prefix_refl _) 0 (Nat.zero_le _)
  simp [LogMessage.line,asciiBytes] at hfits
  omega

/-- A message whose line is as long as its payload makes it, up to the longest line there is. -/
def longMessage (k : ℕ) : LogMessage := .log .unknown 0xFFFFFFFFFFFFFFFF 0xFFFFFFFF (.ok (List.replicate k 65))

lemma length_line_longMessage {k : ℕ} (hk : k ≤ 239) : (longMessage k).line.length = 49 + k := by
  have htimestamp : (decimalPadded 1 (2 ^ 64 - 1)).length = 20 :=
    length_decimalPadded_eq (by decide) (by decide) (by decide)
  have hthread : (decimalPadded 1 (2 ^ 32 - 1)).length = 10 :=
    length_decimalPadded_eq (by decide) (by decide) (by decide)
  have hpayload : (longMessage k).payload = List.replicate k 65 := by
    simp [longMessage,LogMessage.log,maxLogPayload,hk]
  have htext : ((List.replicate k (65 : UInt8)).takeWhile (· ≠ 0)).length = k := by
    simp
  have hline : (longMessage k).line.length =
      1 + (decimalPadded 1 (2 ^ 64 - 1)).length + 5 + (decimalPadded 1 (2 ^ 32 - 1)).length + 3 + 7 + 2 +
        ((longMessage k).payload.takeWhile (· ≠ 0)).length + 1 := by
    simp only [LogMessage.line,List.length_append]
    rfl
  rw [hline,htimestamp,hthread,hpayload,htext]
  omega

/-- An initial size is safe for all messages exactly when the longest line fits it. -/
theorem log_always_kept_iff (files : List UInt8 → List UInt8) (filepath : List UInt8) (mmapSize : ℕ) :
    (∀ messages, Kept ((FileState.fresh files).init filepath mmapSize) [] messages) ↔ 288 ≤ mmapSize := by
  simp only [(grown_init files filepath mmapSize).kept_iff]
  constructor
  · intro h
    by_contra hsmall
    rw [Nat.not_le] at hsmall
    by_cases htwice : mmapSize * 2 < 288
    · -- the longest line does not even fit twice the size
      have hfits := h [longMessage 239] [] _ (List.prefix_refl _) 0 (Nat.zero_le _)
      rw [length_line_longMessage (by decide)] at hfits
      simp at hfits
      omega
    · -- a line that fills the file, and the longest line behind it
      have hfirst := length_line_longMessage (k := mmapSize - 49) (by omega)
      have hfits := h [longMessage (mmapSize - 49),longMessage 239] [longMessage (mmapSize - 49)] _
        (List.prefix_refl _) 0
      rw [length_line_longMessage (k := 239) (by decide)] at hfits
      simp [hfirst] at hfits
      omega
  · intro hsize messages pre msg _ j hle
    have hline := msg.length_line_le
    have hpow : mmapSize * 1 ≤ mmapSize * 2 ^ j := Nat.mul_le_mul_left _ Nat.one_le_two_pow
    rw [pow_succ,← Nat.mul_assoc]
    omega

end TickToTrade.AsyncLogger
