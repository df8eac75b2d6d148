import TickToTrade.Library.Bytes

/-! The OUCH Enter Order message: the builder that writes it into a buffer and the parser of the
exchange side. The parser reads back every field that the builder was given. -/
namespace TickToTrade.Ouch
open Bytes

/-- A string in memory: the bytes before its terminating NUL. -/
structure CString where
  bytes : List UInt8
  no_nul : 0 ∉ bytes

/-- Field sizes of the packed `EnterOrderMsg`. -/
def enterOrderMsg : List ℕ := [1,14,1,4,8,4,4,4,1,1,1,4,1,1]

/-- The struct after parsing, with its numbers in host order. -/
structure EnterOrderMsg where
  msgType : UInt8
  orderToken : List UInt8
  buySellIndicator : UInt8
  shares : UInt32
  stock : List UInt8
  price : UInt32
  timeInForce : UInt32
  firm : List UInt8
  display : UInt8
  capacity : UInt8
  intermarketSweepEligibility : UInt8
  minimumQuantity : UInt32
  crossType : UInt8
  customerType : UInt8
  deriving DecidableEq, Repr

/-- The arguments of `build_enter_order` with their defaults; a null pointer is `none`. -/
structure EnterOrder where
  orderToken : Option CString
  buySell : UInt8
  shares : UInt32
  stock : Option CString
  price : UInt32
  timeInForce : UInt32 := 99998
  firm : Option CString := some ⟨['T'.toUInt8,'E'.toUInt8,'S'.toUInt8,'T'.toUInt8],by decide⟩
  display : UInt8 := 'Y'.toUInt8
  capacity : UInt8 := 'O'.toUInt8
  iso : UInt8 := 'N'.toUInt8
  minQty : UInt32 := 0
  crossType : UInt8 := 'N'.toUInt8
  customerType : UInt8 := 'N'.toUInt8

/-- Cut to the size of the field and padded with spaces. -/
def copyStringPadded (src : Option CString) (size : ℕ) : List UInt8 :=
  let bytes := match src with
    | none => []
    | some s => s.bytes
  bytes.take size ++ List.replicate (size - bytes.length) ' '.toUInt8

@[simp] lemma length_copyStringPadded (src : Option CString) (size : ℕ) :
    (copyStringPadded src size).length = size := by
  simp only [copyStringPadded,List.length_append,List.length_take,List.length_replicate]
  omega

/-- The fields in the order in which they are assigned, which is their order in the struct. -/
def EnterOrder.fields (o : EnterOrder) : List (List UInt8) :=
  [['O'.toUInt8],
    copyStringPadded o.orderToken 14,
    [o.buySell],
    hostBytes 4 (bswap32 o.shares).toNat,
    copyStringPadded o.stock 8,
    hostBytes 4 (bswap32 o.price).toNat,
    hostBytes 4 (bswap32 o.timeInForce).toNat,
    copyStringPadded o.firm 4,
    [o.display],
    [o.capacity],
    [o.iso],
    hostBytes 4 (bswap32 o.minQty).toNat,
    [o.crossType],
    [o.customerType]]

lemma EnterOrder.fields_length (o : EnterOrder) : o.fields.map List.length = enterOrderMsg := by
  simp [EnterOrder.fields,enterOrderMsg]

def buildEnterOrder (buffer : ℕ → UInt8) (length : ℕ) (o : EnterOrder) : Bool × (ℕ → UInt8) :=
  if length < packedSize enterOrderMsg then (false,buffer) else (true,storeFields buffer 0 o.fields)

def parseEnterOrder (buffer : ℕ → UInt8) (length : ℕ) (outMsg : EnterOrderMsg) : Bool × EnterOrderMsg :=
  if length < packedSize enterOrderMsg then (false,outMsg)
  else if buffer (fieldOffset enterOrderMsg 0) ≠ 'O'.toUInt8 then (false,outMsg)
  else (true,
    { msgType := buffer (fieldOffset enterOrderMsg 0)
      orderToken := slice buffer (fieldOffset enterOrderMsg 1) 14
      buySellIndicator := buffer (fieldOffset enterOrderMsg 2)
      shares := bswap32 (load32 buffer (fieldOffset enterOrderMsg 3))
      stock := slice buffer (fieldOffset enterOrderMsg 4) 8
      price := bswap32 (load32 buffer (fieldOffset enterOrderMsg 5))
      timeInForce := bswap32 (load32 buffer (fieldOffset enterOrderMsg 6))
      firm := slice buffer (fieldOffset enterOrderMsg 7) 4
      display := buffer (fieldOffset enterOrderMsg 8)
      capacity := buffer (fieldOffset enterOrderMsg 9)
      intermarketSweepEligibility := buffer (fieldOffset enterOrderMsg 10)
      minimumQuantity := bswap32 (load32 buffer (fieldOffset enterOrderMsg 11))
      crossType := buffer (fieldOffset enterOrderMsg 12)
      customerType := buffer (fieldOffset enterOrderMsg 13) })

/-- An accepted message starts with its type and is long enough, and its fields are what was received. -/
lemma parseEnterOrder_accepted {buffer : ℕ → UInt8} {length : ℕ} {prior m : EnterOrderMsg}
    (h : parseEnterOrder buffer length prior = (true,m)) :
    packedSize enterOrderMsg ≤ length ∧ buffer 0 = 'O'.toUInt8 ∧
      m = ⟨buffer 0,slice buffer 1 14,buffer 15,bswap32 (load32 buffer 16),slice buffer 20 8,
        bswap32 (load32 buffer 28),bswap32 (load32 buffer 32),slice buffer 36 4,buffer 40,buffer 41,buffer 42,
        bswap32 (load32 buffer 43),buffer 47,buffer 48⟩ := by
  unfold parseEnterOrder at h
  split at h
  · simp at h
  · rename_i hlength
    split at h
    · simp at h
    · rename_i htype
      obtain ⟨_,rfl⟩ := Prod.mk.inj h
      exact ⟨Nat.not_lt.mp hlength,not_not.mp htype,rfl⟩

/-- What the message says: the arguments, with the strings cut and padded. -/
def EnterOrder.message (o : EnterOrder) : EnterOrderMsg :=
  ⟨'O'.toUInt8,copyStringPadded o.orderToken 14,o.buySell,o.shares,copyStringPadded o.stock 8,o.price,
    o.timeInForce,copyStringPadded o.firm 4,o.display,o.capacity,o.iso,o.minQty,o.crossType,o.customerType⟩

lemma parseEnterOrder_congr {buffer buffer' : ℕ → UInt8} {length : ℕ} (outMsg : EnterOrderMsg)
    (h : ∀ i < packedSize enterOrderMsg, buffer i = buffer' i) :
    parseEnterOrder buffer length outMsg = parseEnterOrder buffer' length outMsg := by
  have hbyte : ∀ i < 49, buffer i = buffer' i := h
  have hslice : ∀ offset n, offset + n ≤ 49 → slice buffer offset n = slice buffer' offset n :=
    fun offset n hle => slice_congr fun i _ hi => hbyte i (by omega)
  simp [parseEnterOrder,fieldOffset,enterOrderMsg,load32,hslice,hbyte]

theorem parse_storeFields (o : EnterOrder) (buffer : ℕ → UInt8) {length : ℕ}
    (hlength : packedSize enterOrderMsg ≤ length) (outMsg : EnterOrderMsg) :
    parseEnterOrder (storeFields buffer 0 o.fields) length outMsg = (true,o.message) := by
  have hbyte : ∀ {i : ℕ} {b : UInt8}, o.fields[i]? = some [b] →
      storeFields buffer 0 o.fields (fieldOffset enterOrderMsg i) = b := by
    intro i b hfield
    rw [← o.fields_length]
    exact byte_storeFields hfield buffer
  have hload : ∀ {i : ℕ} {x : UInt32}, o.fields[i]? = some (hostBytes 4 x.toNat) →
      load32 (storeFields buffer 0 o.fields) (fieldOffset enterOrderMsg i) = x := by
    intro i x hfield
    rw [← o.fields_length]
    exact load32_storeFields hfield buffer
  have hstring : ∀ {i n : ℕ} {src : Option CString}, o.fields[i]? = some (copyStringPadded src n) →
      slice (storeFields buffer 0 o.fields) (fieldOffset enterOrderMsg i) n = copyStringPadded src n := by
    intro i n src hfield
    have hslice := slice_storeFields hfield buffer 0
    rwa [length_copyStringPadded,Nat.zero_add,o.fields_length] at hslice
  have htype : storeFields buffer 0 o.fields (fieldOffset enterOrderMsg 0) = 'O'.toUInt8 := hbyte rfl
  rw [parseEnterOrder,if_neg (Nat.not_lt.mpr hlength),if_neg (not_not.mpr htype)]
  rw [htype,hstring (i := 1) rfl,hbyte (i := 2) rfl,hload (i := 3) rfl,hstring (i := 4) rfl,hload (i := 5) rfl,
    hload (i := 6) rfl,hstring (i := 7) rfl,hbyte (i := 8) rfl,hbyte (i := 9) rfl,hbyte (i := 10) rfl,
    hload (i := 11) rfl,hbyte (i := 12) rfl,hbyte (i := 13) rfl]
  simp only [bswap32_bswap32]
  rfl

namespace EnterOrder

/-- The 49 bytes that `build_enter_order` writes. -/
def wire (o : EnterOrder) : List UInt8 := o.fields.flatten

@[simp] lemma length_wire (o : EnterOrder) : o.wire.length = 49 := by
  rw [wire,List.length_flatten,o.fields_length]
  rfl

theorem slice_buildEnterOrder (o : EnterOrder) (buffer : ℕ → UInt8) {length : ℕ} (hlength : 49 ≤ length) :
    (buildEnterOrder buffer length o).1 = true ∧
      slice (buildEnterOrder buffer length o).2 0 (packedSize enterOrderMsg) = o.wire := by
  have hbuild : buildEnterOrder buffer length o = (true,storeFields buffer 0 o.fields) :=
    if_neg (Nat.not_lt.mpr hlength)
  rw [hbuild]
  exact ⟨rfl,by rw [storeFields_eq_store]; exact slice_store o.length_wire buffer 0⟩

lemma parse_wire (o : EnterOrder) (outMsg : EnterOrderMsg) :
    parseEnterOrder (ofBytes o.wire) o.wire.length outMsg = (true,o.message) := by
  rw [wire,← store_zero_eq_ofBytes,← storeFields_eq_store]
  exact parse_storeFields o _ (Nat.le_of_eq o.length_wire.symm) outMsg

end EnterOrder

end TickToTrade.Ouch
