import TickToTrade.Library.Run

/-! Byte streams in which frames follow one another without marks. A reader that starts anywhere may
take a byte for the start of a frame; where two bytes never stand at one distance in a stream, it will
not read the second one there. The property holds of a stream of frames, torn ones included, if it
holds of each frame and the second byte is not near its front. -/
namespace TickToTrade.Framing

variable {α : Type*} {d : ℕ} {a b : α} {xs ys : List α}

/-- No `b` stands `d` places behind an `a`, and none among the first `d`. -/
structure Guarded (d : ℕ) (a b : α) (xs : List α) : Prop where
  apart : ∀ i, xs[i]? = some a → xs[i + d]? ≠ some b
  front : ∀ i < d, xs[i]? ≠ some b

lemma guarded_nil (d : ℕ) (a b : α) : Guarded d a b [] where
  apart := by simp
  front := by simp

lemma Guarded.of_isPrefix (h : Guarded d a b xs) (hys : ys <+: xs) : Guarded d a b ys where
  apart i ha hb := h.apart i (getElem?_of_isPrefix hys ha) (getElem?_of_isPrefix hys hb)
  front i hi hb := h.front i hi (getElem?_of_isPrefix hys hb)

theorem Guarded.append (hx : Guarded d a b xs) (hy : Guarded d a b ys) : Guarded d a b (xs ++ ys) where
  apart i ha hb := by
    rw [List.getElem?_append] at ha hb
    by_cases hi : i < xs.length
    · rw [if_pos hi] at ha
      by_cases hd : i + d < xs.length
      · rw [if_pos hd] at hb
        exact hx.apart i ha hb
      · -- the second byte is near the front of what follows
        rw [if_neg hd] at hb
        exact hy.front _ (by omega) hb
    · rw [if_neg hi] at ha
      rw [if_neg (by omega),show i + d - xs.length = i - xs.length + d by omega] at hb
      exact hy.apart _ ha hb
  front i hi hb := by
    rw [List.getElem?_append] at hb
    split at hb
    · exact hx.front i hi hb
    · exact hy.front _ (by omega) hb

/-- A frame in three parts: no `b` outside the middle one, which is not longer than the distance,
and no `a` in the places from which `d` steps lead into it. -/
theorem guarded_of_parts {front middle back : List α} {k : ℕ} (hfront : front.length = k + d)
    (hmiddle : middle.length ≤ d) (hb : ∀ x ∈ front ++ back, x ≠ b) (ha : ∀ x ∈ front.drop k, x ≠ a) :
    Guarded d a b (front ++ middle ++ back) where
  apart i hia hib := by
    rw [List.append_assoc,List.getElem?_append] at hia hib
    by_cases hd : i + d < front.length
    · rw [if_pos hd] at hib
      exact hb b (List.mem_append_left _ (List.mem_of_getElem? hib)) rfl
    · rw [if_neg hd,List.getElem?_append] at hib
      split at hib
      · rw [if_pos (by omega)] at hia
        refine ha a (List.mem_of_getElem? (i := i - k) ?_) rfl
        rw [List.getElem?_drop,show k + (i - k) = i by omega]
        exact hia
      · exact hb b (List.mem_append_right _ (List.mem_of_getElem? hib)) rfl
  front i hi hib := by
    rw [List.append_assoc,List.getElem?_append,if_pos (by omega)] at hib
    exact hb b (List.mem_append_left _ (List.mem_of_getElem? hib)) rfl

/-- A frame tells its size in its first element. -/
def Announced (size : α → Option ℕ) (frame : List α) : Prop :=
  ∃ x ∈ frame.head?, size x = some frame.length

/-- Frames that tell their sizes can be told apart in a stream. -/
theorem eq_of_flatten_eq {size : α → Option ℕ} {frames frames' : List (List α)}
    (h : ∀ frame ∈ frames, Announced size frame) (h' : ∀ frame ∈ frames', Announced size frame)
    (hstream : frames.flatten = frames'.flatten) : frames = frames' := by
  have hnonempty : ∀ {frame : List α}, Announced size frame → frame ≠ [] := by
    rintro frame ⟨x,hx,_⟩ rfl
    contradiction
  induction frames generalizing frames' with
  | nil =>
    cases frames' with
    | nil => rfl
    | cons frame' frames' => simp [hnonempty (h' frame' List.mem_cons_self)] at hstream
  | cons frame frames ih =>
    cases frames' with
    | nil => simp [hnonempty (h frame List.mem_cons_self)] at hstream
    | cons frame' frames' =>
      obtain ⟨x,hx,hsize⟩ := h frame List.mem_cons_self
      obtain ⟨x',hx',hsize'⟩ := h' frame' List.mem_cons_self
      rw [List.flatten_cons,List.flatten_cons] at hstream
      -- both streams start with one element, so their first frames are equally long
      have hhead := congrArg List.head? hstream
      rw [List.head?_append,List.head?_append,hx,hx'] at hhead
      obtain rfl : x = x' := by simpa using hhead
      have hlength : frame.length = frame'.length := Option.some.inj (hsize.symm.trans hsize')
      obtain ⟨rfl,hrest⟩ := List.append_inj hstream hlength
      rw [ih (fun f hf => h f (List.mem_cons_of_mem _ hf)) (fun f hf => h' f (List.mem_cons_of_mem _ hf)) hrest]

end TickToTrade.Framing
