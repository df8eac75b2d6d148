import Mathlib.Order.Interval.Finset.Nat
import Mathlib.Algebra.GroupWithZero.Nat

/-! Objects in memory: size and alignment of types, structs with natural padding, and arrays of
objects as regions of addresses. -/
namespace TickToTrade.Layout

/-- What the layout of a type is about: `sizeof` and `alignof`. -/
structure CType where
  size : ℕ
  align : ℕ
  deriving DecidableEq, Repr

def roundUp (n align : ℕ) : ℕ := (n + align - 1) / align * align

/-- Each field at the next multiple of its alignment, the whole padded to the strictest one; `alignas`
can ask for a stricter one still. -/
def CType.struct (alignas : ℕ) (fields : List CType) : CType :=
  let align := fields.foldl (fun align field => max align field.align) alignas
  ⟨roundUp (fields.foldl (fun offset field => roundUp offset field.align + field.size) 0) align,align⟩

def uint64Type : CType := ⟨8,8⟩

def pointerType : CType := ⟨8,8⟩

/-- An `enum class` without an underlying type is an `int`. -/
def enumType : CType := ⟨4,4⟩

/-- An array in memory. -/
structure Region where
  start : UInt64
  type : CType
  count : ℕ

namespace Region

/-- The bytes of the array, and the address behind the last of them. -/
def bytes (r : Region) : ℕ := r.type.size * r.count

def stop (r : Region) : ℕ := r.start.toNat + r.bytes

def addresses (r : Region) : Finset ℕ := Finset.Ico r.start.toNat r.stop

def element (r : Region) (i : ℕ) : ℕ := r.start.toNat + r.type.size * i

/-- Every element starts at a multiple of the alignment of its type. -/
def Aligned (r : Region) : Prop := ∀ i < r.count, r.type.align ∣ r.element i

/-- The second array starts behind the first one. -/
def Before (r r' : Region) : Prop := r.stop ≤ r'.start.toNat

variable {r r' : Region}

@[simp] lemma card_addresses (r : Region) : r.addresses.card = r.bytes := by
  rw [addresses,Nat.card_Ico,stop,Nat.add_sub_cancel_left]

/-- Arrays of whole objects are aligned as soon as their start is. -/
lemma aligned_of_start (hsize : r.type.align ∣ r.type.size) (hstart : r.type.align ∣ r.start.toNat) : r.Aligned := by
  intro i _
  exact Nat.dvd_add hstart (Nat.dvd_mul_right_of_dvd hsize i)

lemma Aligned.start (h : r.Aligned) (hcount : 0 < r.count) : r.type.align ∣ r.start.toNat := by
  have hfirst := h 0 hcount
  rwa [element,Nat.mul_zero,Nat.add_zero] at hfirst

lemma Before.disjoint (h : Before r r') : Disjoint r.addresses r'.addresses := by
  rw [Finset.disjoint_left]
  intro address hmem hmem'
  have hlt := (Finset.mem_Ico.mp hmem).2
  have hle := (Finset.mem_Ico.mp hmem').1
  unfold Before at h
  omega

instance : IsTrans Region Before where
  trans r r' r'' h h' := by
    unfold Before stop at *
    omega

theorem pairwise_disjoint_of_chain {regions : List Region} (h : regions.IsChain Before) :
    regions.Pairwise fun r r' => Disjoint r.addresses r'.addresses :=
  (List.isChain_iff_pairwise.mp h).imp Before.disjoint

/-- Arrays that do not overlap and lie in a block have together no more bytes than the block. -/
theorem sum_bytes_le {regions : List Region} {block : Finset ℕ}
    (hdisjoint : regions.Pairwise fun r r' => Disjoint r.addresses r'.addresses)
    (hinside : ∀ r ∈ regions, r.addresses ⊆ block) : (regions.map bytes).sum ≤ block.card := by
  induction regions generalizing block with
  | nil => simp
  | cons r regions ih =>
    obtain ⟨hfirst,hrest⟩ := List.pairwise_cons.mp hdisjoint
    have hr := hinside r List.mem_cons_self
    -- the others lie in what the first array leaves of the block
    have hleft := @ih (block \ r.addresses) hrest fun r' hr' =>
      Finset.subset_sdiff.mpr ⟨hinside r' (List.mem_cons_of_mem _ hr'),(hfirst r' hr').symm⟩
    have hcard := Finset.card_sdiff_add_card_eq_card hr
    rw [card_addresses] at hcard
    rw [List.map_cons,List.sum_cons]
    omega

end Region
end TickToTrade.Layout
