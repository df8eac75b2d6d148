import Mathlib.Data.List.Nodup
import Mathlib.Logic.Function.Basic

/-! Intrusive lists: nodes linked by pointer fields that live outside the list. The fields are
functions from nodes to possibly null pointers, shared by every list of a store. -/
namespace TickToTrade.Linked

variable {ν : Type*}

/-- Following `succ` from the pointer `start` visits exactly the nodes of the list, in order,
and then reaches null. -/
def Walks (succ : ν → Option ν) : Option ν → List ν → Prop
  | p, [] => p = none
  | p, x :: l => p = some x ∧ Walks succ (succ x) l

@[simp] theorem walks_nil {succ : ν → Option ν} {p : Option ν} : Walks succ p [] ↔ p = none :=
  Iff.rfl

@[simp] theorem walks_cons {succ : ν → Option ν} {p : Option ν} {x : ν} {l : List ν} :
    Walks succ p (x :: l) ↔ p = some x ∧ Walks succ (succ x) l := Iff.rfl

theorem Walks.start_eq {succ : ν → Option ν} {p : Option ν} {l : List ν} (h : Walks succ p l) :
    p = l.head? := by
  cases l with
  | nil => exact h
  | cons x l => exact h.1

/-- Pointer fields off the list are irrelevant. -/
theorem Walks.congr {succ succ' : ν → Option ν} {p : Option ν} {l : List ν}
    (h : Walks succ p l) (heq : ∀ x ∈ l, succ' x = succ x) : Walks succ' p l := by
  induction l generalizing p with
  | nil => exact h
  | cons x l ih =>
    refine ⟨h.1,?_⟩
    rw [heq x (by simp)]
    exact ih h.2 (fun y hy => heq y (by simp [hy]))

/-- The list a walk visits is determined by its start and the pointer fields. -/
theorem Walks.unique {succ : ν → Option ν} {p : Option ν} {l l' : List ν} (h : Walks succ p l)
    (h' : Walks succ p l') : l = l' := by
  induction l generalizing p l' with
  | nil =>
    cases l' with
    | nil => rfl
    | cons y l' => rw [walks_nil.mp h] at h'; exact absurd h'.1 (by simp)
  | cons x l ih =>
    cases l' with
    | nil => rw [h.1] at h'; exact absurd h' (by simp)
    | cons y l' =>
      obtain rfl : x = y := Option.some.inj (h.1.symm.trans h'.1)
      rw [ih h.2 h'.2]

theorem Walks.succ_eq {succ : ν → Option ν} {p : Option ν} {l₁ l₂ : List ν} {x : ν}
    (h : Walks succ p (l₁ ++ x :: l₂)) : succ x = l₂.head? := by
  induction l₁ generalizing p with
  | nil => exact h.2.start_eq
  | cons y l₁ ih => exact ih h.2

section Update
variable [DecidableEq ν] {succ : ν → Option ν} {p : Option ν} {l l₁ l₂ : List ν} {x t : ν}

theorem Walks.update_of_not_mem (h : Walks succ p l) (hx : x ∉ l) (q : Option ν) :
    Walks (Function.update succ x q) p l :=
  h.congr fun _ hy => Function.update_of_ne (ne_of_mem_of_not_mem hy hx) _ _

/-- Making the last node point to a fresh node whose own pointer is null appends it. -/
theorem Walks.append (h : Walks succ p l) (hl : l.Nodup) (hx : x ∉ l) (hnull : succ x = none)
    (ht : l.getLast? = some t) : Walks (Function.update succ t (some x)) p (l ++ [x]) := by
  induction l generalizing p with
  | nil => simp at ht
  | cons y l ih =>
    obtain ⟨hyl,hl⟩ := List.nodup_cons.mp hl
    simp only [List.mem_cons,not_or] at hx
    refine ⟨h.1,?_⟩
    cases l with
    | nil =>
      obtain rfl : y = t := by simpa using ht
      rw [Function.update_self]
      refine ⟨rfl,?_⟩
      rw [walks_nil,Function.update_of_ne hx.1,hnull]
    | cons z l =>
      have ht' : (z :: l).getLast? = some t := by simpa [List.getLast?_cons_cons] using ht
      have hyt : y ≠ t := fun hyt => hyl (hyt ▸ List.mem_of_getLast? ht')
      rw [Function.update_of_ne hyt]
      exact ih h.2 hl hx.2 ht'

/-- Making the node before `x` point past it removes `x`. -/
theorem Walks.bypass (h : Walks succ p (l₁ ++ x :: l₂)) (hl : (l₁ ++ x :: l₂).Nodup)
    (ht : l₁.getLast? = some t) : Walks (Function.update succ t (succ x)) p (l₁ ++ l₂) := by
  induction l₁ generalizing p with
  | nil => simp at ht
  | cons y l₁ ih =>
    obtain ⟨hyl,hl⟩ := List.nodup_cons.mp hl
    refine ⟨h.1,?_⟩
    cases l₁ with
    | nil =>
      obtain rfl : y = t := by simpa using ht
      rw [Function.update_self]
      exact h.2.2.update_of_not_mem (fun hy => hyl (by simp [hy])) _
    | cons z l₁ =>
      have ht' : (z :: l₁).getLast? = some t := by simpa [List.getLast?_cons_cons] using ht
      have hyt : y ≠ t := fun hyt => hyl (hyt ▸ List.mem_append_left _ (List.mem_of_getLast? ht'))
      rw [Function.update_of_ne hyt]
      exact ih h.2 hl ht'

end Update

/-- One doubly linked list of a store: the shared pointer fields and its two ends. -/
structure Links (ν : Type*) where
  next : ν → Option ν
  prev : ν → Option ν
  head : Option ν
  tail : Option ν

namespace Links

/-- Walking by `next` from the head gives the list, walking by `prev` from the tail its reverse. -/
structure Represents (d : Links ν) (l : List ν) : Prop where
  forward : Walks d.next d.head l
  backward : Walks d.prev d.tail l.reverse

variable {d : Links ν} {l l₁ l₂ : List ν} {x y : ν}

/-- A list survives any change away from its nodes and its two ends. -/
theorem Represents.congr {d' : Links ν} (h : d.Represents l) (hhead : d'.head = d.head)
    (htail : d'.tail = d.tail) (hfield : ∀ y ∈ l, d'.next y = d.next y ∧ d'.prev y = d.prev y) :
    d'.Represents l where
  forward := by
    rw [hhead]
    exact h.forward.congr fun y hy => (hfield y hy).1
  backward := by
    rw [htail]
    exact h.backward.congr fun y hy => (hfield y (List.mem_reverse.mp hy)).2

theorem Represents.tail_eq (h : d.Represents l) : d.tail = l.getLast? := by
  rw [h.backward.start_eq,List.head?_reverse]

theorem Represents.next_eq (h : d.Represents (l₁ ++ x :: l₂)) : d.next x = l₂.head? :=
  h.forward.succ_eq

theorem Represents.prev_eq (h : d.Represents (l₁ ++ x :: l₂)) : d.prev x = l₁.getLast? := by
  have hb := h.backward
  simp only [List.reverse_append,List.reverse_cons,List.append_assoc,List.singleton_append] at hb
  rw [hb.succ_eq,List.head?_reverse]

lemma Represents.prev_ne (h : d.Represents (l₁ ++ x :: l₂)) (hy : y ∉ l₁) : d.prev x ≠ some y :=
  fun hp => hy (List.mem_of_getLast? (h.prev_eq.symm.trans hp))

lemma Represents.next_ne (h : d.Represents (l₁ ++ x :: l₂)) (hy : y ∉ l₂) : d.next x ≠ some y :=
  fun hn => hy (List.mem_of_head? (h.next_eq.symm.trans hn))

theorem Represents.next_eq_some_iff (h : d.Represents l) (hl : l.Nodup) (hx : x ∈ l) (hy : y ∈ l) :
    d.next x = some y ↔ d.prev y = some x := by
  constructor
  · intro hxy
    obtain ⟨l₁,l₂,rfl⟩ := List.append_of_mem hx
    rw [h.next_eq] at hxy
    obtain ⟨l₃,rfl⟩ : ∃ l₃, l₂ = y :: l₃ := by
      cases l₂ with
      | nil => simp at hxy
      | cons z l₃ => exact ⟨l₃,by rw [List.head?_cons,Option.some.injEq] at hxy; rw [hxy]⟩
    rw [List.append_cons] at h
    rw [h.prev_eq]
    simp
  · intro hyx
    obtain ⟨l₁,l₂,rfl⟩ := List.append_of_mem hy
    rw [h.prev_eq] at hyx
    obtain ⟨l₃,rfl⟩ : ∃ l₃, l₁ = l₃ ++ [x] := List.getLast?_eq_some_iff.mp hyx
    rw [List.append_assoc,List.singleton_append] at h
    rw [h.next_eq]
    simp

section Update
variable [DecidableEq ν]

/-- Append a node at the tail. -/
def pushBack (d : Links ν) (x : ν) : Links ν :=
  let next := Function.update d.next x none
  let prev := Function.update d.prev x d.tail
  match d.tail with
  | some t => ⟨Function.update next t (some x),prev,d.head,some x⟩
  | none => ⟨next,prev,some x,some x⟩

/-- Redirect the `next` side of the neighbourhood of `x` past it. -/
def unlinkNext (d : Links ν) (x : ν) : Links ν :=
  match d.prev x with
  | some p => { d with next := Function.update d.next p (d.next x) }
  | none => { d with head := d.next x }

/-- Redirect the `prev` side of the neighbourhood of `x` past it. -/
def unlinkPrev (d : Links ν) (x : ν) : Links ν :=
  match d.next x with
  | some n => { d with prev := Function.update d.prev n (d.prev x) }
  | none => { d with tail := d.prev x }

/-- Take a node out of the list. -/
def unlink (d : Links ν) (x : ν) : Links ν := (d.unlinkNext x).unlinkPrev x

lemma pushBack_of_none (h : d.tail = none) (x : ν) : d.pushBack x =
    ⟨Function.update d.next x none,Function.update d.prev x none,some x,some x⟩ := by
  simp [pushBack,h]

lemma pushBack_of_some {t : ν} (h : d.tail = some t) (x : ν) : d.pushBack x =
    ⟨Function.update (Function.update d.next x none) t (some x),
      Function.update d.prev x (some t),d.head,some x⟩ := by
  simp [pushBack,h]

lemma unlinkNext_of_none (h : d.prev x = none) : d.unlinkNext x = { d with head := d.next x } := by
  simp [unlinkNext,h]

lemma unlinkNext_of_some {p : ν} (h : d.prev x = some p) :
    d.unlinkNext x = { d with next := Function.update d.next p (d.next x) } := by
  simp [unlinkNext,h]

lemma unlinkPrev_of_none (h : d.next x = none) : d.unlinkPrev x = { d with tail := d.prev x } := by
  simp [unlinkPrev,h]

lemma unlinkPrev_of_some {n : ν} (h : d.next x = some n) :
    d.unlinkPrev x = { d with prev := Function.update d.prev n (d.prev x) } := by
  simp [unlinkPrev,h]

theorem Represents.pushBack (h : d.Represents l) (hl : l.Nodup) (hx : x ∉ l) :
    (d.pushBack x).Represents (l ++ [x]) := by
  have hnext : Walks (Function.update d.next x none) d.head l := h.forward.update_of_not_mem hx _
  have hback : Walks (Function.update d.prev x d.tail) d.tail l.reverse :=
    h.backward.update_of_not_mem (by simpa using hx) _
  cases htail : d.tail with
  | none =>
    obtain rfl : l = [] := List.getLast?_eq_none_iff.mp (h.tail_eq.symm.trans htail)
    rw [pushBack_of_none htail]
    constructor <;> simp
  | some t =>
    rw [pushBack_of_some htail]
    rw [htail] at hback
    constructor
    · exact hnext.append hl hx (by simp) (by rw [← h.tail_eq,htail])
    · rw [List.reverse_append,List.reverse_singleton,List.singleton_append]
      exact ⟨rfl,by simpa using hback⟩

@[simp] lemma unlinkNext_prev (d : Links ν) (x : ν) : (d.unlinkNext x).prev = d.prev := by
  unfold unlinkNext
  split <;> rfl

@[simp] lemma unlinkNext_tail (d : Links ν) (x : ν) : (d.unlinkNext x).tail = d.tail := by
  unfold unlinkNext
  split <;> rfl

/-- The first half of unlinking touches only the node before `x`. -/
lemma unlinkNext_next_of_ne (h : d.prev x ≠ some y) : (d.unlinkNext x).next y = d.next y := by
  cases hp : d.prev x with
  | none => rw [unlinkNext_of_none hp]
  | some p =>
    rw [unlinkNext_of_some hp]
    exact Function.update_of_ne (fun hyp => h (by rw [hp,hyp])) _ _

@[simp] lemma unlinkPrev_next (d : Links ν) (x : ν) : (d.unlinkPrev x).next = d.next := by
  unfold unlinkPrev
  split <;> rfl

@[simp] lemma unlinkPrev_head (d : Links ν) (x : ν) : (d.unlinkPrev x).head = d.head := by
  unfold unlinkPrev
  split <;> rfl

/-- The second half of unlinking touches only the node after `x`. -/
lemma unlinkPrev_prev_of_ne (h : d.next x ≠ some y) : (d.unlinkPrev x).prev y = d.prev y := by
  cases hn : d.next x with
  | none => rw [unlinkPrev_of_none hn]
  | some n =>
    rw [unlinkPrev_of_some hn]
    exact Function.update_of_ne (fun hyn => h (by rw [hn,hyn])) _ _

theorem Represents.unlink (h : d.Represents (l₁ ++ x :: l₂)) (hl : (l₁ ++ x :: l₂).Nodup) :
    (d.unlink x).Represents (l₁ ++ l₂) := by
  have hx : x ∉ l₁ := fun hx => (List.nodup_append.mp hl).2.2 x hx x (by simp) rfl
  have hnext : (d.unlinkNext x).next x = d.next x := unlinkNext_next_of_ne (h.prev_ne hx)
  constructor
  · rw [Links.unlink,unlinkPrev_next,unlinkPrev_head]
    cases hp : d.prev x with
    | none =>
      obtain rfl : l₁ = [] := List.getLast?_eq_none_iff.mp (h.prev_eq.symm.trans hp)
      rw [unlinkNext_of_none hp]
      exact h.forward.2
    | some p =>
      rw [unlinkNext_of_some hp]
      exact h.forward.bypass hl (h.prev_eq.symm.trans hp)
  · have hb : Walks d.prev d.tail (l₂.reverse ++ x :: l₁.reverse) := by
      simpa using h.backward
    have hlr : (l₂.reverse ++ x :: l₁.reverse).Nodup := by
      simpa using List.nodup_reverse.mpr hl
    rw [Links.unlink,List.reverse_append]
    cases hn : d.next x with
    | none =>
      obtain rfl : l₂ = [] := List.head?_eq_none_iff.mp (h.next_eq.symm.trans hn)
      rw [unlinkPrev_of_none (hnext.trans hn),unlinkNext_prev]
      exact hb.2
    | some n =>
      rw [unlinkPrev_of_some (hnext.trans hn),unlinkNext_prev,unlinkNext_tail]
      exact hb.bypass hlr (by rw [List.getLast?_reverse,← h.next_eq,hn])

theorem pushBack_frame (h : d.Represents l) (hx : y ≠ x) (hy : y ∉ l) :
    (d.pushBack x).next y = d.next y ∧ (d.pushBack x).prev y = d.prev y := by
  cases htail : d.tail with
  | none =>
    rw [pushBack_of_none htail]
    exact ⟨Function.update_of_ne hx _ _,Function.update_of_ne hx _ _⟩
  | some t =>
    have hyt : y ≠ t := fun hyt => hy (hyt ▸ List.mem_of_getLast? (h.tail_eq.symm.trans htail))
    rw [pushBack_of_some htail]
    exact ⟨by simp [Function.update_of_ne hyt,Function.update_of_ne hx],Function.update_of_ne hx _ _⟩

theorem unlink_frame (h : d.Represents (l₁ ++ x :: l₂)) (hl : (l₁ ++ x :: l₂).Nodup)
    (hy : y ∉ l₁ ++ x :: l₂) :
    (d.unlink x).next y = d.next y ∧ (d.unlink x).prev y = d.prev y := by
  simp only [List.mem_append,List.mem_cons,not_or] at hy
  have hx : x ∉ l₁ := fun hx => (List.nodup_append.mp hl).2.2 x hx x (by simp) rfl
  constructor
  · rw [Links.unlink,unlinkPrev_next,unlinkNext_next_of_ne (h.prev_ne hy.1)]
  · rw [Links.unlink,unlinkPrev_prev_of_ne,unlinkNext_prev]
    rw [unlinkNext_next_of_ne (h.prev_ne hx)]
    exact h.next_ne hy.2.2

end Update
end Links
end TickToTrade.Linked
