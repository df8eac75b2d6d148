import TickToTrade.Itch.Parser
import TickToTrade.Ouch.EnterOrder

/-! The ITCH Add Order builder of the exchange side. It takes the stock as a pointer to characters
and looks for their NUL; the pointer is modelled by the bytes that may be read from it on. -/
namespace TickToTrade.Itch
open Bytes

/-- `std::strlen`: there is no result when no NUL stands in the bytes that may be read. -/
def strlen (readable : List UInt8) : Option ℕ := readable.findIdx? (· = 0)

/-- The arguments of `build_add_order`; a null pointer is `none`. -/
structure AddOrder where
  stockLocate : UInt16
  trackingNumber : UInt16
  timestamp : UInt64
  orderRefNumber : UInt64
  buySell : UInt8
  shares : UInt32
  stock : Option (List UInt8)
  price : UInt32

/-- Six bytes, the most significant first. -/
def writeTimestamp (ts : UInt64) : List UInt8 :=
  [((ts >>> 40) &&& 0xFF).toUInt8,((ts >>> 32) &&& 0xFF).toUInt8,((ts >>> 24) &&& 0xFF).toUInt8,
    ((ts >>> 16) &&& 0xFF).toUInt8,((ts >>> 8) &&& 0xFF).toUInt8,(ts &&& 0xFF).toUInt8]

/-- The stock field: what `strlen` finds, cut to eight bytes and padded with spaces. -/
def stockField (stock : Option (List UInt8)) : Option (List UInt8) := do
  let (readable,len) ← match stock with
    | none => some ([],0)
    | some readable => (strlen readable).map fun len => (readable,len)
  let copyLen := min len 8
  some (readable.take copyLen ++ List.replicate (8 - copyLen) ' '.toUInt8)

/-- The fields in the order in which they are assigned, which is their order in the struct. -/
def AddOrder.fields (o : AddOrder) (stock : List UInt8) : List (List UInt8) :=
  [['A'.toUInt8],
    hostBytes 2 (bswap16 o.stockLocate).toNat,
    hostBytes 2 (bswap16 o.trackingNumber).toNat,
    writeTimestamp o.timestamp,
    hostBytes 8 (bswap64 o.orderRefNumber).toNat,
    [o.buySell],
    hostBytes 4 (bswap32 o.shares).toNat,
    stock,
    hostBytes 4 (bswap32 o.price).toNat]

def buildAddOrder (buffer : ℕ → UInt8) (length : ℕ) (o : AddOrder) : Option (Bool × (ℕ → UInt8)) :=
  if length < packedSize addOrderMsg then some (false,buffer)
  else do
    let stock ← stockField o.stock
    some (true,storeFields buffer 0 (o.fields stock))

/-- What the message tells the book. -/
def AddOrder.message (o : AddOrder) : InternalMessage :=
  ⟨'A'.toUInt8,o.orderRefNumber,o.price.toUInt64,o.shares.toUInt64,
    if o.buySell = 'B'.toUInt8 then .buy else .sell⟩

lemma AddOrder.fields_length (o : AddOrder) {stock : List UInt8} (h : stock.length = 8) :
    (o.fields stock).map List.length = addOrderMsg := by
  simp [AddOrder.fields,addOrderMsg,writeTimestamp,h]

lemma AddOrder.length_flatten_fields (o : AddOrder) {stock : List UInt8} (h : stock.length = 8) :
    (o.fields stock).flatten.length = packedSize addOrderMsg := by
  rw [List.length_flatten,o.fields_length h]
  rfl

lemma buildAddOrder_eq {o : AddOrder} {stock : List UInt8} (hstock : stockField o.stock = some stock)
    (buffer : ℕ → UInt8) {length : ℕ} (hlength : packedSize addOrderMsg ≤ length) :
    buildAddOrder buffer length o = some (true,storeFields buffer 0 (o.fields stock)) := by
  rw [buildAddOrder,if_neg (Nat.not_lt.mpr hlength),hstock]
  rfl

theorem parse_storeFields (o : AddOrder) {stock : List UInt8} (hstock : stock.length = 8) (buffer : ℕ → UInt8)
    {length : ℕ} (hlength : packedSize addOrderMsg ≤ length) (outMsg : InternalMessage) :
    parse (storeFields buffer 0 (o.fields stock)) length outMsg = (true,o.message) := by
  have hbyte : ∀ {i : ℕ} {b : UInt8}, (o.fields stock)[i]? = some [b] →
      storeFields buffer 0 (o.fields stock) (fieldOffset addOrderMsg i) = b := by
    intro i b hfield
    rw [← o.fields_length hstock]
    exact byte_storeFields hfield buffer
  have htype : storeFields buffer 0 (o.fields stock) 0 = 'A'.toUInt8 := hbyte (i := 0) rfl
  have hid : load64 (storeFields buffer 0 (o.fields stock)) (fieldOffset addOrderMsg 4) = bswap64 o.orderRefNumber := by
    have hfield : (o.fields stock)[4]? = some (hostBytes 8 (bswap64 o.orderRefNumber).toNat) := rfl
    rw [← o.fields_length hstock]
    exact load64_storeFields hfield buffer
  have hload : ∀ {i : ℕ} {x : UInt32}, (o.fields stock)[i]? = some (hostBytes 4 x.toNat) →
      load32 (storeFields buffer 0 (o.fields stock)) (fieldOffset addOrderMsg i) = x := by
    intro i x hfield
    rw [← o.fields_length hstock]
    exact load32_storeFields hfield buffer
  have hpos : length ≠ 0 := by
    intro hzero
    rw [hzero] at hlength
    contradiction
  rw [parse,if_neg hpos]
  simp only [htype,if_true,if_neg (Nat.not_lt.mpr hlength),hbyte (i := 5) rfl,hid,hload (i := 6) rfl,hload (i := 8) rfl,
    bswap64_bswap64,bswap32_bswap32]
  rfl

lemma slice_stock (o : AddOrder) {stock : List UInt8} (hstock : stock.length = 8) (buffer : ℕ → UInt8) :
    slice (storeFields buffer 0 (o.fields stock)) (fieldOffset addOrderMsg 7) 8 = stock := by
  have hfield : (o.fields stock)[7]? = some stock := rfl
  have hslice := slice_storeFields hfield buffer 0
  rwa [o.fields_length hstock,hstock,Nat.zero_add] at hslice

lemma strlen_isSome_iff {readable : List UInt8} : (strlen readable).isSome ↔ 0 ∈ readable := by
  simp [strlen,List.findIdx?_isSome]

lemma stockField_isSome_iff {readable : List UInt8} : (stockField (some readable)).isSome ↔ 0 ∈ readable := by
  rw [← strlen_isSome_iff,stockField]
  cases strlen readable <;> rfl

/-- A full stock field without a NUL is copied whole, wherever behind it the NUL stands. -/
lemma stockField_of_no_nul {stock behind : List UInt8} (hlength : stock.length = 8) (hstock : 0 ∉ stock)
    (hnul : 0 ∈ behind) : stockField (some (stock ++ behind)) = some stock := by
  obtain ⟨n,hn⟩ := Option.isSome_iff_exists.mp (strlen_isSome_iff.mpr hnul)
  have hlen : strlen (stock ++ behind) = some (n + 8) := by
    have hnone : strlen stock = none := by
      rw [← Option.not_isSome_iff_eq_none,strlen_isSome_iff]
      exact hstock
    unfold strlen at hn hnone ⊢
    rw [List.findIdx?_append,hnone,hn,hlength]
    rfl
  simp [stockField,hlen,hlength]

end TickToTrade.Itch
