import TickToTrade.Itch.Builder
import TickToTrade.Ouch.RoundTrip

/-! The Add Order builder against the parser of the trading side: what was built parses to the
arguments, and the 36 bytes determine every argument as far as its field can hold it. -/
namespace TickToTrade.Itch
open Bytes Ouch

/-- `Parser::parse_timestamp` on a pointer to the six bytes. -/
def parseTimestamp (ts : ℕ → UInt8) : UInt64 :=
  (ts 0).toUInt64 <<< 40 ||| (ts 1).toUInt64 <<< 32 ||| (ts 2).toUInt64 <<< 24 ||| (ts 3).toUInt64 <<< 16 |||
    (ts 4).toUInt64 <<< 8 ||| (ts 5).toUInt64

/-- The `stock` pointer is null or points to the string, with any bytes behind its NUL. -/
def PointsTo (stock : Option (List UInt8)) (src : Option CString) : Prop :=
  ∃ behind, stock = src.map fun s => s.bytes ++ 0 :: behind

lemma writeTimestamp_eq (ts : UInt64) : writeTimestamp ts = bigEndian 6 ts.toNat := by
  have hlast : (ts &&& 0xFF).toUInt8 = UInt8.ofNat ts.toNat := by
    have h := byte_shiftRight ts 0
    simpa using h
  simp only [writeTimestamp,byte_shiftRight,hlast,bigEndian,hostBytes,List.reverse_cons,List.reverse_nil,
    List.nil_append,List.cons_append,Nat.shiftRight_eq_div_pow,Nat.div_div_eq_div_mul]
  rfl

lemma toNat_parseTimestamp (ts : ℕ → UInt8) : (parseTimestamp ts).toNat = hostValue (slice ts 0 6).reverse := by
  have h1 := (ts 1).toNat_lt
  have h2 := (ts 2).toNat_lt
  have h3 := (ts 3).toNat_lt
  have h4 := (ts 4).toNat_lt
  have h5 := (ts 5).toNat_lt
  simp only [parseTimestamp,UInt64.toNat_or,Nat.or_assoc,UInt8.toNat_toUInt64]
  rw [toNat_toUInt64_shiftLeft (k := 40) _ (by decide),toNat_toUInt64_shiftLeft (k := 32) _ (by decide),
    toNat_toUInt64_shiftLeft (k := 24) _ (by decide),toNat_toUInt64_shiftLeft (k := 16) _ (by decide),
    toNat_toUInt64_shiftLeft (k := 8) _ (by decide)]
  simp only [UInt64.reduceToNat]
  -- from the last byte on, each shifted byte stands above everything behind it
  rw [or_mul_two_pow (k := 8) (by omega),or_mul_two_pow (k := 16) (by omega),or_mul_two_pow (k := 24) (by omega),
    or_mul_two_pow (k := 32) (by omega),or_mul_two_pow (k := 40) (by omega)]
  simp only [slice,List.range_succ,List.range_zero,List.nil_append,List.cons_append,List.map_cons,List.map_nil,
    List.reverse_cons,List.reverse_nil,hostValue_cons,Nat.zero_add]
  rw [show hostValue [] = 0 from rfl]
  omega

/-- A string in the stock field is cut to eight bytes and padded with spaces. -/
lemma stockField_of_pointsTo {stock : Option (List UInt8)} {src : Option CString} (h : PointsTo stock src) :
    stockField stock = some (inField src 8) := by
  obtain ⟨behind,rfl⟩ := h
  rw [← copyStringPadded_eq_inField]
  cases src with
  | none => rfl
  | some s =>
    have hlen : strlen (s.bytes ++ 0 :: behind) = some s.bytes.length := by
      have hnone : s.bytes.findIdx? (· = 0) = none := by
        rw [List.findIdx?_eq_none_iff]
        intro b hb
        exact decide_eq_false fun hzero => s.no_nul (hzero ▸ hb)
      rw [strlen,List.findIdx?_append,hnone,List.findIdx?_cons]
      simp
    have hmin : 8 - min s.bytes.length 8 = 8 - s.bytes.length := by omega
    have htake : (s.bytes ++ 0 :: behind).take (min s.bytes.length 8) = s.bytes.take 8 := by
      rw [List.take_append_of_le_length (Nat.min_le_left _ _),List.take_eq_take_iff]
      omega
    simp [stockField,hlen,copyStringPadded,hmin,htake]

lemma length_inField (src : Option CString) (size : ℕ) : (inField src size).length = size := by
  rw [← copyStringPadded_eq_inField,length_copyStringPadded]

lemma parseTimestamp_storeFields (o : AddOrder) {stock : List UInt8} (hstock : stock.length = 8)
    (buffer : ℕ → UInt8) :
    (parseTimestamp fun i => storeFields buffer 0 (o.fields stock) (fieldOffset addOrderMsg 3 + i)).toNat =
      o.timestamp.toNat % 2 ^ 48 := by
  have hfield : (o.fields stock)[3]? = some (writeTimestamp o.timestamp) := rfl
  have hslice := slice_storeFields hfield buffer 0
  rw [o.fields_length hstock,Nat.zero_add,writeTimestamp_eq,length_bigEndian] at hslice
  rw [toNat_parseTimestamp]
  have hbytes : slice (fun i => storeFields buffer 0 (o.fields stock) (fieldOffset addOrderMsg 3 + i)) 0 6 =
      bigEndian 6 o.timestamp.toNat := by
    rw [← hslice]
    simp [slice]
  rw [hbytes,bigEndian,List.reverse_reverse]
  exact hostValue_hostBytes 6 _

lemma slice_storeFields_fields (o : AddOrder) {stock : List UInt8} (hstock : stock.length = 8) (buffer : ℕ → UInt8) :
    slice (storeFields buffer 0 (o.fields stock)) 0 36 = (o.fields stock).flatten := by
  rw [storeFields_eq_store]
  exact slice_store (o.length_flatten_fields hstock) buffer 0

lemma storeFields_fields_of_le (o : AddOrder) {stock : List UInt8} (hstock : stock.length = 8) (buffer : ℕ → UInt8)
    {i : ℕ} (hi : 36 ≤ i) : storeFields buffer 0 (o.fields stock) i = buffer i := by
  rw [storeFields_eq_store]
  apply store_of_le
  rw [o.length_flatten_fields hstock,Nat.zero_add]
  exact hi

lemma AddOrder.fields_eq_iff {o o' : AddOrder} {stock stock' : List UInt8} :
    o.fields stock = o'.fields stock' ↔
      o.stockLocate = o'.stockLocate ∧ o.trackingNumber = o'.trackingNumber ∧
      o.timestamp.toNat % 2 ^ 48 = o'.timestamp.toNat % 2 ^ 48 ∧ o.orderRefNumber = o'.orderRefNumber ∧
      o.buySell = o'.buySell ∧ o.shares = o'.shares ∧ stock = stock' ∧ o.price = o'.price := by
  have h16 : ∀ x y : UInt16, bigEndian 2 x.toNat = bigEndian 2 y.toNat ↔ x = y :=
    fun x y => (bigEndian_inj x.toNat_lt y.toNat_lt).trans UInt16.toNat_inj
  have h32 : ∀ x y : UInt32, bigEndian 4 x.toNat = bigEndian 4 y.toNat ↔ x = y :=
    fun x y => (bigEndian_inj x.toNat_lt y.toNat_lt).trans UInt32.toNat_inj
  have h64 : ∀ x y : UInt64, bigEndian 8 x.toNat = bigEndian 8 y.toNat ↔ x = y :=
    fun x y => (bigEndian_inj x.toNat_lt y.toNat_lt).trans UInt64.toNat_inj
  have htimestamp : bigEndian 6 o.timestamp.toNat = bigEndian 6 o'.timestamp.toNat ↔
      o.timestamp.toNat % 2 ^ 48 = o'.timestamp.toNat % 2 ^ 48 := bigEndian_eq_iff
  simp only [AddOrder.fields,hostBytes_bswap16,hostBytes_bswap32,hostBytes_bswap64,writeTimestamp_eq,
    List.cons.injEq,h16,h32,h64,htimestamp,true_and,and_true]

/-- The Add Order message there and back: into every buffer with room the builder writes a message
that parses to its arguments, with the timestamp modulo 2 ^ 48 in its six bytes and nothing changed
behind the message, and two messages are the same 36 bytes exactly when the arguments agree as far as
the fields hold them. -/
theorem addOrder_round_trip :
    (∀ (o : AddOrder) src buffer length outMsg, PointsTo o.stock src → 36 ≤ length →
      ∃ built, buildAddOrder buffer length o = some (true,built) ∧
        parse built length outMsg = (true,⟨'A'.toUInt8,o.orderRefNumber,o.price.toUInt64,o.shares.toUInt64,
          if o.buySell = 'B'.toUInt8 then .buy else .sell⟩) ∧
        (parseTimestamp fun i => built (fieldOffset addOrderMsg 3 + i)).toNat = o.timestamp.toNat % 2 ^ 48 ∧
        ∀ i, 36 ≤ i → built i = buffer i) ∧
    ∀ (o o' : AddOrder) src src' buffer buffer' length length' built built',
      PointsTo o.stock src → PointsTo o'.stock src' →
      36 ≤ length → buildAddOrder buffer length o = some (true,built) →
      36 ≤ length' → buildAddOrder buffer' length' o' = some (true,built') →
      (slice built 0 36 = slice built' 0 36 ↔
        o.stockLocate = o'.stockLocate ∧ o.trackingNumber = o'.trackingNumber ∧
        o.timestamp.toNat % 2 ^ 48 = o'.timestamp.toNat % 2 ^ 48 ∧ o.orderRefNumber = o'.orderRefNumber ∧
        o.buySell = o'.buySell ∧ o.shares = o'.shares ∧ inField src 8 = inField src' 8 ∧ o.price = o'.price) := by
  constructor
  · intro o src buffer length outMsg hstock hlength
    have hfield := length_inField src 8
    exact ⟨_,buildAddOrder_eq (stockField_of_pointsTo hstock) buffer hlength,parse_storeFields o hfield buffer hlength outMsg,
      parseTimestamp_storeFields o hfield buffer,fun i hi => storeFields_fields_of_le o hfield buffer hi⟩
  · intro o o' src src' buffer buffer' length length' built built' hstock hstock' hlength hbuilt hlength' hbuilt'
    have hfield := length_inField src 8
    have hfield' := length_inField src' 8
    rw [buildAddOrder_eq (stockField_of_pointsTo hstock) buffer hlength] at hbuilt
    rw [buildAddOrder_eq (stockField_of_pointsTo hstock') buffer' hlength'] at hbuilt'
    obtain rfl : _ = built := by simpa using hbuilt
    obtain rfl : _ = built' := by simpa using hbuilt'
    rw [slice_storeFields_fields o hfield,slice_storeFields_fields o' hfield',← AddOrder.fields_eq_iff]
    constructor
    · intro hflatten
      -- the fields have the same lengths on both sides, so the bytes fall apart into them
      refine List.eq_iff_flatten_eq.mpr ⟨hflatten,?_⟩
      rw [o.fields_length hfield,o'.fields_length hfield']
    · exact congrArg List.flatten

/-- A nine-letter stock and a timestamp above 48 bits; without its ninth letter the stock gives the
same message. -/
theorem addOrder_round_trip_cut :
    let nine : CString := ⟨[65,66,67,68,69,70,71,72,73],by decide⟩
    let eight : CString := ⟨[65,66,67,68,69,70,71,72],by decide⟩
    let o : AddOrder := ⟨1,2,0x0102030405060708,7,'S'.toUInt8,300,some (nine.bytes ++ [0,33]),15000⟩
    let o' : AddOrder := { o with timestamp := 0x030405060708, stock := some (eight.bytes ++ [0]) }
    (∃ built, buildAddOrder (fun _ => 255) 40 o = some (true,built) ∧
      parse built 40 ⟨0,0,0,0,.buy⟩ = (true,⟨'A'.toUInt8,7,15000,300,.sell⟩) ∧ built 36 = 255) ∧
    ∀ built built', buildAddOrder (fun _ => 255) 40 o = some (true,built) →
      buildAddOrder (fun _ => 0) 36 o' = some (true,built') → slice built 0 36 = slice built' 0 36 := by
  intro nine eight o o'
  have hstock : PointsTo o.stock (some nine) := ⟨[33],rfl⟩
  have hstock' : PointsTo o'.stock (some eight) := ⟨[],rfl⟩
  obtain ⟨hthere,hsame⟩ := addOrder_round_trip
  constructor
  · obtain ⟨built,hbuilt,hparse,_,hbehind⟩ := hthere o _ (fun _ => 255) 40 ⟨0,0,0,0,.buy⟩ hstock (by decide)
    exact ⟨built,hbuilt,hparse,hbehind 36 (by decide)⟩
  · intro built built' hbuilt hbuilt'
    exact (hsame o o' _ _ _ _ 40 36 built built' hstock hstock' (by decide) hbuilt (by decide) hbuilt').mpr (by decide)

end TickToTrade.Itch
