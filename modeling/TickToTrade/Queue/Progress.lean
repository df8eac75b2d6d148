import TickToTrade.Queue.RaceFree

/-! A side that loads the last store of the other's index gets on: a pop while there are items, a push
while there is room. -/
namespace TickToTrade.SPSCQueue.Weak
open ReleaseAcquire

variable {T : Type*} {capacity : ℕ} {s : State T}

/-- The steps to the end of a push that is not refused. -/
def pushRank : ProducerPc T → ℕ
  | .idle => 4
  | .loaded .. => 3
  | .checked .. => 2
  | .written .. => 1

def popRank : ConsumerPc T → ℕ
  | .idle => 4
  | .loaded _ => 3
  | .checked _ => 2
  | .copied .. => 1

lemma pushRank_pos (pc : ProducerPc T) : 0 < pushRank pc := by cases pc <;> simp [pushRank]

lemma popRank_pos (pc : ConsumerPc T) : 0 < popRank pc := by cases pc <;> simp [popRank]

theorem Ordered.push_advances (h : Ordered capacity s) (hroom : s.pushes + 1 < s.pops + capacity) (item : T) :
    ∃ a e s', Weak.step capacity s a = some (e,s') ∧ (∀ i, a ≠ .loadRead i) ∧
      (∀ item' i, a = .loadWrite item' i → item' = item) ∧ s'.consumer = s.consumer ∧
      ((∃ item, e = .pushed item) ∨ e = .silent ∧ pushRank s'.producer < pushRank s.producer) := by
  cases hpc : s.producer with
  | idle =>
    obtain ⟨memory,hload⟩ := h.sound.load_latest .producer .relaxed .writeIndex
    have hstep : Weak.step capacity s (.loadWrite item s.pushes) =
        some (.silent,{ s with memory := memory, producer := .loaded item (s.memory.stores .writeIndex s.pushes).value }) := by
      simp only [Weak.step,stepWith,hpc,State.pushes,hload,Option.bind_eq_bind,Option.bind_some]
    exact ⟨_,_,_,hstep,by simp,by simp,rfl,.inr ⟨rfl,Nat.lt_succ_self 3⟩⟩
  | loaded item' w =>
    obtain ⟨memory,hload⟩ := h.sound.load_latest .producer .acquire .readIndex
    have hpasses := mt (h.full_iff hpc hload).mp (Nat.ne_of_lt hroom)
    have hstep : Weak.step capacity s (.checkFull s.pops) =
        some (.silent,{ s with memory := memory, producer := .checked item' w }) := by
      simp only [Weak.step,stepWith,hpc,orders,State.pops,hload,Option.bind_eq_bind,Option.bind_some,if_neg hpasses]
    exact ⟨_,_,_,hstep,by simp,by simp,rfl,.inr ⟨rfl,Nat.lt_succ_self 2⟩⟩
  | checked item' w =>
    obtain ⟨memory,hwrite⟩ := Option.isSome_iff_exists.mp (h.write_isSome hpc)
    have hstep : Weak.step capacity s .writeData =
        some (.silent,{ s with memory := memory, producer := .written item' w }) := by
      simp only [Weak.step,stepWith,hpc,hwrite,Option.bind_eq_bind,Option.bind_some]
    exact ⟨_,_,_,hstep,by simp,by simp,rfl,.inr ⟨rfl,Nat.lt_succ_self 1⟩⟩
  | written item' w =>
    obtain ⟨memory,hstore⟩ : ∃ memory, s.memory.store .producer .release .writeIndex ((w + 1) % capacity) = some memory :=
      ⟨_,Memory.store_eq_some_iff.mpr ⟨h.producer.stored,rfl⟩⟩
    have hstep : Weak.step capacity s .storeWrite =
        some (.pushed item',{ s with memory := memory, producer := .idle }) := by
      simp only [Weak.step,stepWith,hpc,orders,hstore,Option.bind_eq_bind,Option.bind_some]
    exact ⟨_,_,_,hstep,by simp,by simp,rfl,.inl ⟨item',rfl⟩⟩

theorem Ordered.pop_advances (h : Ordered capacity s) (hitems : s.pops < s.pushes) :
    ∃ a e s', Weak.step capacity s a = some (e,s') ∧ (∀ item i, a ≠ .loadWrite item i) ∧ s'.producer = s.producer ∧
      ((∃ item, e = .popped item) ∨ e = .silent ∧ popRank s'.consumer < popRank s.consumer) := by
  cases hpc : s.consumer with
  | idle =>
    obtain ⟨memory,hload⟩ := h.sound.load_latest .consumer .relaxed .readIndex
    have hstep : Weak.step capacity s (.loadRead s.pops) =
        some (.silent,{ s with memory := memory, consumer := .loaded (s.memory.stores .readIndex s.pops).value }) := by
      simp only [Weak.step,stepWith,hpc,State.pops,hload,Option.bind_eq_bind,Option.bind_some]
    exact ⟨_,_,_,hstep,by simp,rfl,.inr ⟨rfl,Nat.lt_succ_self 3⟩⟩
  | loaded r =>
    obtain ⟨memory,hload⟩ := h.sound.load_latest .consumer .acquire .writeIndex
    have hpasses := mt (h.empty_iff hpc hload).mp (Nat.ne_of_gt hitems)
    have hstep : Weak.step capacity s (.checkEmpty s.pushes) =
        some (.silent,{ s with memory := memory, consumer := .checked r }) := by
      simp only [Weak.step,stepWith,hpc,orders,State.pushes,hload,Option.bind_eq_bind,Option.bind_some,if_neg hpasses]
    exact ⟨_,_,_,hstep,by simp,rfl,.inr ⟨rfl,Nat.lt_succ_self 2⟩⟩
  | checked r =>
    obtain ⟨⟨item,memory⟩,hread⟩ := Option.isSome_iff_exists.mp (h.read_isSome hpc)
    have hstep : Weak.step capacity s .readData =
        some (.silent,{ s with memory := memory, consumer := .copied r item }) := by
      simp only [Weak.step,stepWith,hpc,hread,Option.bind_eq_bind,Option.bind_some]
    exact ⟨_,_,_,hstep,by simp,rfl,.inr ⟨rfl,Nat.lt_succ_self 1⟩⟩
  | copied r item =>
    obtain ⟨memory,hstore⟩ : ∃ memory, s.memory.store .consumer .release .readIndex ((r + 1) % capacity) = some memory :=
      ⟨_,Memory.store_eq_some_iff.mpr ⟨h.consumer.stored,rfl⟩⟩
    have hstep : Weak.step capacity s .storeRead =
        some (.popped item,{ s with memory := memory, consumer := .idle }) := by
      simp only [Weak.step,stepWith,hpc,orders,hstore,Option.bind_eq_bind,Option.bind_some]
    exact ⟨_,_,_,hstep,by simp,rfl,.inl ⟨item,rfl⟩⟩

end TickToTrade.SPSCQueue.Weak
