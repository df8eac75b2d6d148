import TickToTrade.OrderBook.Model
import TickToTrade.Library.OpenTable

/-! The order map as a linear-probing table: its three loops are the lookup, placement and
erasure of the general table, read through the view that forgets the keys of dead entries. -/
namespace TickToTrade
open Probing

/-- What an entry means: null is empty, the tombstone address is a tombstone whatever its key. -/
def HashEntry.slot (e : HashEntry) : Slot UInt64 ℕ :=
  match e.value with
  | .null => .empty
  | .tombstone => .tomb
  | .order p => .live e.key p

namespace LimitOrderBook

def table (b : LimitOrderBook) (i : ℕ) : Slot UInt64 ℕ := (b.orderMap i).slot

lemma table_eq_empty_iff (b : LimitOrderBook) (i : ℕ) : b.table i = .empty ↔ (b.orderMap i).value = .null := by
  unfold table HashEntry.slot
  cases (b.orderMap i).value <;> simp

lemma table_eq_live_iff (b : LimitOrderBook) (i : ℕ) (k : UInt64) (x : ℕ) :
    b.table i = .live k x ↔ b.orderMap i = ⟨k,.order x⟩ := by
  unfold table HashEntry.slot
  obtain ⟨key,value⟩ := b.orderMap i
  cases value <;> simp

@[simp] lemma table_setEntry (b : LimitOrderBook) (i : ℕ) (e : HashEntry) :
    (b.setEntry i e).table = Function.update b.table i e.slot := by
  funext j
  by_cases hj : j = i
  · subst j
    simp [table,setEntry]
  · simp [table,setEntry,hj]

lemma findBody_eq (b : LimitOrderBook) (id : UInt64) (i : ℕ) :
    b.findBody id i =
      (locateBody b.table id i).map (fun r => r.bind fun j => (b.table j).value?) := by
  unfold findBody locateBody
  cases h : (b.orderMap i).value with
  | null => simp [table,HashEntry.slot,h]
  | tombstone => simp [table,HashEntry.slot,h]
  | order p =>
    by_cases hk : (b.orderMap i).key = id <;> simp [table,HashEntry.slot,h,hk,Slot.value?]

lemma eraseBody_eq (b : LimitOrderBook) (id : UInt64) (i : ℕ) :
    b.eraseBody id i = (locateBody b.table id i).map (fun r => match r with
      | none => b
      | some j => b.setEntry j { b.orderMap j with value := .tombstone }) := by
  unfold eraseBody locateBody
  cases h : (b.orderMap i).value with
  | null => simp [table,HashEntry.slot,h]
  | tombstone => simp [table,HashEntry.slot,h]
  | order p => by_cases hk : (b.orderMap i).key = id <;> simp [table,HashEntry.slot,h,hk]

lemma insertBody_eq (b : LimitOrderBook) (id : UInt64) (order i : ℕ) :
    b.insertBody id order i =
      (placeBody b.table id i).map (fun j => b.setEntry j ⟨id,.order order⟩) := by
  unfold insertBody placeBody
  cases h : (b.orderMap i).value with
  | null => simp [table,HashEntry.slot,h]
  | tombstone => simp [table,HashEntry.slot,h]
  | order p => by_cases hk : (b.orderMap i).key = id <;> simp [table,HashEntry.slot,h,hk]

/-- `map_find` is the table lookup followed by a read of the value it stopped at. -/
theorem mapFind_eq (b : LimitOrderBook) (id : UInt64) :
    b.mapFind id = (locate b.mapCapacity UInt64.toNat b.table id).map
      (fun r => r.bind fun j => (b.table j).value?) := by
  rw [mapFind,funext (b.findBody_eq id),probeLoop_map]
  rfl

theorem mapErase_eq (b : LimitOrderBook) (id : UInt64) :
    b.mapErase id = (locate b.mapCapacity UInt64.toNat b.table id).map (fun r => match r with
      | none => b
      | some j => b.setEntry j { b.orderMap j with value := .tombstone }) := by
  rw [mapErase,funext (b.eraseBody_eq id),probeLoop_map]
  rfl

theorem mapInsert_eq (b : LimitOrderBook) (id : UInt64) (order : ℕ) :
    b.mapInsert id order = (place b.mapCapacity UInt64.toNat b.table id).map
      (fun j => b.setEntry j ⟨id,.order order⟩) := by
  rw [mapInsert,funext (b.insertBody_eq id order),probeLoop_map]
  rfl

variable {b : LimitOrderBook} {id : UInt64} {p : ℕ}

section Lookup
variable (hwf : WellFormed b.mapCapacity UInt64.toNat b.table)
include hwf

theorem mapErase_of_maps (h : Maps b.mapCapacity b.table id p) :
    ∃ i < b.mapCapacity, b.table i = .live id p ∧
      b.mapErase id = some (b.setEntry i { b.orderMap i with value := .tombstone }) := by
  obtain ⟨i,hi,hv⟩ := h
  exact ⟨i,hi,hv,by rw [mapErase_eq,locate_of_live hwf hi hv]; rfl⟩

variable (hcap : 0 < b.mapCapacity)
include hcap

theorem mapFind_eq_some_some_iff :
    b.mapFind id = some (some p) ↔ Maps b.mapCapacity b.table id p := by
  rw [mapFind_eq]
  constructor
  · intro h
    obtain ⟨r,hr,hp⟩ := Option.map_eq_some_iff.mp h
    obtain ⟨i,rfl,hi⟩ := Option.bind_eq_some_iff.mp hp
    obtain ⟨hlt,v,hv⟩ := locate_sound hcap hr
    rw [hv,Slot.value?,Option.some.injEq] at hi
    exact ⟨i,hlt,by rw [hv,hi]⟩
  · rintro ⟨i,hi,hv⟩
    simp [locate_of_live hwf hi hv,hv,Slot.value?]

/-- A search that ends at a null entry has proved the id absent. -/
theorem absent_of_mapFind (h : b.mapFind id = some none) (p : ℕ) :
    ¬ Maps b.mapCapacity b.table id p := by
  intro hp
  simp [(mapFind_eq_some_some_iff hwf hcap).mpr hp] at h

theorem mapFind_isSome_iff : (b.mapFind id).isSome ↔
    (∃ p, Maps b.mapCapacity b.table id p) ∨ ∃ i < b.mapCapacity, b.table i = .empty := by
  rw [mapFind_eq,Option.isSome_map,locate_isSome_iff hcap hwf]

end Lookup

theorem mapInsert_of_free (b : LimitOrderBook) (id : UInt64) (hcap : 0 < b.mapCapacity) {j : ℕ} (hj : j < b.mapCapacity)
    (hfree : ∀ k q, b.table j ≠ .live k q) (order : ℕ) :
    ∃ i, place b.mapCapacity UInt64.toNat b.table id = some i ∧
      b.mapInsert id order = some (b.setEntry i ⟨id,.order order⟩) := by
  obtain ⟨i,hi⟩ := Option.isSome_iff_exists.mp (place_isSome UInt64.toNat id hcap hj hfree)
  exact ⟨i,hi,by rw [mapInsert_eq,hi]; rfl⟩

end LimitOrderBook
end TickToTrade
