import TickToTrade.Itch.Parser
import Mathlib.Data.Vector.Basic

/-! The message format that the parser declares: the five packed messages with all their fields in
network order. The parser accepts exactly the datagrams that start with such a message, decodes every
field it keeps, and reads nothing behind the end of the datagram. -/
namespace TickToTrade.Itch
open Bytes

/-- The fields every message starts with, behind its type. The timestamp has six bytes. -/
structure Header where
  stockLocate : UInt16
  trackingNumber : UInt16
  timestamp : BitVec 48
  orderRefNumber : UInt64
  deriving DecidableEq, Repr

/-- A message with all its fields, under the names of the packed structs. -/
inductive Message
  | addOrder (header : Header) (buySellIndicator : UInt8) (shares : UInt32) (stock : List.Vector UInt8 8)
      (price : UInt32)
  | orderCancel (header : Header) (canceledShares : UInt32)
  | orderDelete (header : Header)
  | orderExecuted (header : Header) (executedShares : UInt32) (matchNumber : UInt64)
  | orderExecutedWithPrice (header : Header) (executedShares : UInt32) (matchNumber : UInt64)
      (printable : UInt8) (executionPrice : UInt32)

/-- The size that the format gives a message of the type, if it is one of the five. -/
def messageSize (type : UInt8) : Option ℕ :=
  if type = 'A'.toUInt8 then some 36
  else if type = 'X'.toUInt8 then some 23
  else if type = 'D'.toUInt8 then some 19
  else if type = 'E'.toUInt8 then some 31
  else if type = 'C'.toUInt8 then some 36
  else none

namespace Message

def type : Message → UInt8
  | addOrder .. => 'A'.toUInt8
  | orderCancel .. => 'X'.toUInt8
  | orderDelete .. => 'D'.toUInt8
  | orderExecuted .. => 'E'.toUInt8
  | orderExecutedWithPrice .. => 'C'.toUInt8

def header : Message → Header
  | addOrder header .. => header
  | orderCancel header .. => header
  | orderDelete header => header
  | orderExecuted header .. => header
  | orderExecutedWithPrice header .. => header

/-- The fields behind the header. -/
def body : Message → List (List UInt8)
  | addOrder _ buySellIndicator shares stock price =>
    [[buySellIndicator],bigEndian 4 shares.toNat,stock.toList,bigEndian 4 price.toNat]
  | orderCancel _ canceledShares => [bigEndian 4 canceledShares.toNat]
  | orderDelete _ => []
  | orderExecuted _ executedShares matchNumber =>
    [bigEndian 4 executedShares.toNat,bigEndian 8 matchNumber.toNat]
  | orderExecutedWithPrice _ executedShares matchNumber printable executionPrice =>
    [bigEndian 4 executedShares.toNat,bigEndian 8 matchNumber.toNat,[printable],
      bigEndian 4 executionPrice.toNat]

def fields (msg : Message) : List (List UInt8) :=
  [[msg.type],
    bigEndian 2 msg.header.stockLocate.toNat,
    bigEndian 2 msg.header.trackingNumber.toNat,
    bigEndian 6 msg.header.timestamp.toNat,
    bigEndian 8 msg.header.orderRefNumber.toNat] ++ msg.body

/-- The packed message in network order. -/
def encode (msg : Message) : List UInt8 := msg.fields.flatten

/-- The struct that the parser lays over the message. -/
def layout : Message → List ℕ
  | addOrder .. => addOrderMsg
  | orderCancel .. => orderCancelMsg
  | orderDelete .. => orderDeleteMsg
  | orderExecuted .. => orderExecutedMsg
  | orderExecutedWithPrice .. => orderExecutedWithPriceMsg

/-- What the message says in the parser's terms; what it does not say stays as in `prior`. -/
def internal (prior : InternalMessage) : Message → InternalMessage
  | addOrder header buySellIndicator shares _ price =>
    ⟨'A'.toUInt8,header.orderRefNumber,price.toUInt64,shares.toUInt64,
      if buySellIndicator = 'B'.toUInt8 then .buy else .sell⟩
  | orderCancel header canceledShares =>
    { prior with type := 'X'.toUInt8, id := header.orderRefNumber, quantity := canceledShares.toUInt64 }
  | orderDelete header => { prior with type := 'D'.toUInt8, id := header.orderRefNumber }
  | orderExecuted header executedShares _ =>
    { prior with type := 'E'.toUInt8, id := header.orderRefNumber, quantity := executedShares.toUInt64 }
  | orderExecutedWithPrice header executedShares _ _ executionPrice =>
    { prior with
      type := 'C'.toUInt8
      id := header.orderRefNumber
      quantity := executedShares.toUInt64
      price := executionPrice.toUInt64 }

end Message

/-- `Parser::parse` on memory that may have no byte at some addresses: the same reads in the same
order, each of which has to find a byte. -/
def parseChecked (memory : ℕ → Option UInt8) (length : ℕ) (outMsg : InternalMessage) :
    Option (Bool × InternalMessage) :=
  if length = 0 then some (false,outMsg)
  else do
    let type ← memory 0
    let outMsg := { outMsg with type := type }
    if type = 'A'.toUInt8 then
      if length < packedSize addOrderMsg then some (false,outMsg)
      else
        let orderRefNumber ← load64? memory (fieldOffset addOrderMsg 4)
        let shares ← load32? memory (fieldOffset addOrderMsg 6)
        let price ← load32? memory (fieldOffset addOrderMsg 8)
        let buySellIndicator ← memory (fieldOffset addOrderMsg 5)
        some (true,{ outMsg with
          id := bswap64 orderRefNumber
          quantity := (bswap32 shares).toUInt64
          price := (bswap32 price).toUInt64
          side := if buySellIndicator = 'B'.toUInt8 then .buy else .sell })
    else if type = 'X'.toUInt8 then
      if length < packedSize orderCancelMsg then some (false,outMsg)
      else
        let orderRefNumber ← load64? memory (fieldOffset orderCancelMsg 4)
        let canceledShares ← load32? memory (fieldOffset orderCancelMsg 5)
        some (true,{ outMsg with
          id := bswap64 orderRefNumber
          quantity := (bswap32 canceledShares).toUInt64 })
    else if type = 'D'.toUInt8 then
      if length < packedSize orderDeleteMsg then some (false,outMsg)
      else
        let orderRefNumber ← load64? memory (fieldOffset orderDeleteMsg 4)
        some (true,{ outMsg with id := bswap64 orderRefNumber })
    else if type = 'E'.toUInt8 then
      if length < packedSize orderExecutedMsg then some (false,outMsg)
      else
        let orderRefNumber ← load64? memory (fieldOffset orderExecutedMsg 4)
        let executedShares ← load32? memory (fieldOffset orderExecutedMsg 5)
        some (true,{ outMsg with
          id := bswap64 orderRefNumber
          quantity := (bswap32 executedShares).toUInt64 })
    else if type = 'C'.toUInt8 then
      if length < packedSize orderExecutedWithPriceMsg then some (false,outMsg)
      else
        let orderRefNumber ← load64? memory (fieldOffset orderExecutedWithPriceMsg 4)
        let executedShares ← load32? memory (fieldOffset orderExecutedWithPriceMsg 5)
        let executionPrice ← load32? memory (fieldOffset orderExecutedWithPriceMsg 8)
        some (true,{ outMsg with
          id := bswap64 orderRefNumber
          quantity := (bswap32 executedShares).toUInt64
          price := (bswap32 executionPrice).toUInt64 })
    else some (false,outMsg)

lemma Message.length_fields (msg : Message) : msg.fields.map List.length = msg.layout := by
  cases msg <;> simp [fields,body,layout,addOrderMsg,orderCancelMsg,orderDeleteMsg,orderExecutedMsg,
    orderExecutedWithPriceMsg]

lemma Message.length_encode (msg : Message) : msg.encode.length = packedSize msg.layout := by
  rw [encode,List.length_flatten,msg.length_fields,packedSize]

lemma Message.messageSize_type (msg : Message) : messageSize msg.type = some msg.encode.length := by
  rw [msg.length_encode]
  cases msg <;> rfl

lemma messageSize_pos {type : UInt8} {size : ℕ} (h : messageSize type = some size) : 0 < size := by
  unfold messageSize at h
  split_ifs at h <;> simp at h <;> omega

theorem parse_accepts_iff (buffer : ℕ → UInt8) (length : ℕ) (prior : InternalMessage) :
    (parse buffer length prior).1 = true ↔ ∃ size, messageSize (buffer 0) = some size ∧ size ≤ length := by
  let R (x : Bool × InternalMessage) (y : Option ℕ) : Prop := x.1 = true ↔ ∃ size, y = some size ∧ size ≤ length
  -- the parser and the table of sizes make the same tests on the type
  have hlong : ∀ (fields : List ℕ) (msg msg' : InternalMessage),
      R (if length < packedSize fields then (false,msg) else (true,msg')) (some (packedSize fields)) := by
    intro fields msg msg'
    by_cases hshort : length < packedSize fields
    · simp [R,hshort]
    · simp [R,hshort,Nat.not_lt.mp hshort]
  by_cases hzero : length = 0
  · rw [parse,if_pos hzero]
    constructor
    · intro haccepted
      contradiction
    · rintro ⟨size,hsize,hle⟩
      have hpos := messageSize_pos hsize
      omega
  · rw [parse,if_neg hzero]
    exact ite_related R (fun _ => hlong addOrderMsg _ _) fun _ =>
      ite_related R (fun _ => hlong orderCancelMsg _ _) fun _ =>
      ite_related R (fun _ => hlong orderDeleteMsg _ _) fun _ =>
      ite_related R (fun _ => hlong orderExecutedMsg _ _) fun _ =>
      ite_related R (fun _ => hlong orderExecutedWithPriceMsg _ _) fun _ => by simp [R]

/-- On memory that has all bytes below the length, the checked parser never fails to find one: the
parser reads nothing behind the end. -/
theorem parseChecked_eq {memory : ℕ → Option UInt8} {length : ℕ} (h : ∀ i < length, (memory i).isSome)
    (prior : InternalMessage) :
    parseChecked memory length prior = some (parse (fun i => (memory i).getD 0) length prior) := by
  have hid : ∀ {fields : List ℕ}, ¬ length < packedSize fields → fieldOffset fields 4 + 8 ≤ packedSize fields →
      load64? memory (fieldOffset fields 4) = some (load64 (fun i => (memory i).getD 0) (fieldOffset fields 4)) :=
    fun hlong hinside => load64?_eq h (hinside.trans (Nat.not_lt.mp hlong))
  have hword : ∀ {fields : List ℕ} (i : ℕ), ¬ length < packedSize fields →
      fieldOffset fields i + 4 ≤ packedSize fields →
      load32? memory (fieldOffset fields i) = some (load32 (fun i => (memory i).getD 0) (fieldOffset fields i)) :=
    fun i hlong hinside => load32?_eq h (hinside.trans (Nat.not_lt.mp hlong))
  unfold parseChecked parse
  split
  · rfl
  · rename_i hlength
    rw [byte?_eq h (by omega : 0 < length)]
    simp only [Option.bind_eq_bind,Option.bind_some]
    let R (x : Option (Bool × InternalMessage)) (y : Bool × InternalMessage) : Prop := x = some y
    refine ite_related R (fun _ => ite_related R (fun _ => rfl) fun hlong => ?_) fun _ =>
      ite_related R (fun _ => ite_related R (fun _ => rfl) fun hlong => ?_) fun _ =>
      ite_related R (fun _ => ite_related R (fun _ => rfl) fun hlong => ?_) fun _ =>
      ite_related R (fun _ => ite_related R (fun _ => rfl) fun hlong => ?_) fun _ =>
      ite_related R (fun _ => ite_related R (fun _ => rfl) fun hlong => ?_) fun _ => rfl
    · have hside : fieldOffset addOrderMsg 5 < length :=
        Nat.lt_of_lt_of_le (by decide : _ < packedSize addOrderMsg) (Nat.not_lt.mp hlong)
      obtain ⟨indicator,hindicator⟩ := Option.isSome_iff_exists.mp (h _ hside)
      rw [hid hlong (by decide),hword 6 hlong (by decide),hword 8 hlong (by decide)]
      simp only [hindicator,Option.bind_some,Option.getD_some]
      rfl
    · rw [hid hlong (by decide),hword 5 hlong (by decide)]
      rfl
    · rw [hid hlong (by decide)]
      rfl
    · rw [hid hlong (by decide),hword 5 hlong (by decide)]
      rfl
    · rw [hid hlong (by decide),hword 5 hlong (by decide),hword 8 hlong (by decide)]
      rfl

theorem parse_encode (msg : Message) (rest : List UInt8) (prior : InternalMessage) :
    parse (ofBytes (msg.encode ++ rest)) (msg.encode ++ rest).length prior = (true,msg.internal prior) := by
  have hlong : ¬ (msg.encode ++ rest).length < packedSize msg.layout := by
    rw [List.length_append,msg.length_encode]
    omega
  have hpos : (msg.encode ++ rest).length ≠ 0 := by
    have hsize : 0 < packedSize msg.layout := by cases msg <;> exact Nat.succ_pos _
    omega
  have hbyte : ∀ (i : ℕ) {b : UInt8}, msg.fields[i]? = some [b] →
      ofBytes (msg.encode ++ rest) (fieldOffset msg.layout i) = b :=
    fun i _ hfield => byte_encoded msg.length_fields rest hfield
  have hid : bswap64 (load64 (ofBytes (msg.encode ++ rest)) (fieldOffset msg.layout 4)) =
      msg.header.orderRefNumber := bswap64_load64_encoded msg.length_fields rest rfl
  have hword : ∀ (i : ℕ) {x : UInt32}, msg.fields[i]? = some (bigEndian 4 x.toNat) →
      bswap32 (load32 (ofBytes (msg.encode ++ rest)) (fieldOffset msg.layout i)) = x :=
    fun i _ hfield => bswap32_load32_encoded msg.length_fields rest hfield
  generalize (msg.encode ++ rest).length = length at hlong hpos
  generalize ofBytes (msg.encode ++ rest) = buffer at hbyte hid hword
  have htype : buffer 0 = msg.type := hbyte 0 rfl
  rw [parse,if_neg hpos]
  cases msg with
  | addOrder header buySellIndicator shares stock price =>
    simp only [htype,Message.type]
    rw [if_pos trivial,if_neg (by exact hlong)]
    simp only [show bswap64 (load64 buffer (fieldOffset addOrderMsg 4)) = header.orderRefNumber from hid,
      show buffer (fieldOffset addOrderMsg 5) = buySellIndicator from hbyte 5 rfl,
      show bswap32 (load32 buffer (fieldOffset addOrderMsg 6)) = shares from hword 6 rfl,
      show bswap32 (load32 buffer (fieldOffset addOrderMsg 8)) = price from hword 8 rfl]
    rfl
  | orderCancel header canceledShares =>
    simp only [htype,Message.type]
    rw [if_neg (by decide),if_pos trivial,if_neg (by exact hlong)]
    simp only [show bswap64 (load64 buffer (fieldOffset orderCancelMsg 4)) = header.orderRefNumber from hid,
      show bswap32 (load32 buffer (fieldOffset orderCancelMsg 5)) = canceledShares from hword 5 rfl]
    rfl
  | orderDelete header =>
    simp only [htype,Message.type]
    rw [if_neg (by decide),if_neg (by decide),if_pos trivial,if_neg (by exact hlong)]
    simp only [show bswap64 (load64 buffer (fieldOffset orderDeleteMsg 4)) = header.orderRefNumber from hid]
    rfl
  | orderExecuted header executedShares matchNumber =>
    simp only [htype,Message.type]
    rw [if_neg (by decide),if_neg (by decide),if_neg (by decide),if_pos trivial,if_neg (by exact hlong)]
    simp only [show bswap64 (load64 buffer (fieldOffset orderExecutedMsg 4)) = header.orderRefNumber from hid,
      show bswap32 (load32 buffer (fieldOffset orderExecutedMsg 5)) = executedShares from hword 5 rfl]
    rfl
  | orderExecutedWithPrice header executedShares matchNumber printable executionPrice =>
    simp only [htype,Message.type]
    rw [if_neg (by decide),if_neg (by decide),if_neg (by decide),if_neg (by decide),if_pos trivial,
      if_neg (by exact hlong)]
    simp only [show bswap64 (load64 buffer (fieldOffset orderExecutedWithPriceMsg 4)) = header.orderRefNumber
        from hid,
      show bswap32 (load32 buffer (fieldOffset orderExecutedWithPriceMsg 5)) = executedShares from hword 5 rfl,
      show bswap32 (load32 buffer (fieldOffset orderExecutedWithPriceMsg 8)) = executionPrice from hword 8 rfl]
    rfl

lemma parse_take (msg : Message) {k : ℕ} (hk : k < msg.encode.length) (prior : InternalMessage) :
    (parse (ofBytes (msg.encode.take k)) k prior).1 = false := by
  by_contra haccepted
  obtain ⟨size,hsize,hle⟩ := (parse_accepts_iff _ k prior).mp (by simpa using haccepted)
  have hpos : 0 < k := Nat.lt_of_lt_of_le (messageSize_pos hsize) hle
  have htype : ofBytes (msg.encode.take k) 0 = msg.type := by
    have hfull : ofBytes (msg.encode ++ []) 0 = msg.type := byte_encoded msg.length_fields [] (i := 0) rfl
    rw [← hfull,List.append_nil,ofBytes,ofBytes,List.getD_eq_getElem?_getD,List.getD_eq_getElem?_getD,
      List.getElem?_take_of_lt hpos]
  rw [htype,msg.messageSize_type] at hsize
  obtain rfl := Option.some.inj hsize
  omega

/-- The parser accepts exactly the declared format and decodes it faithfully: acceptance by first
byte and length, the round trip of every message with any bytes behind it, rejection of every proper
prefix of a message, and no read at or behind the end of the buffer. -/
theorem parse_exactly_format :
    (∀ buffer length prior, (parse buffer length prior).1 = true ↔
      ∃ size, messageSize (buffer 0) = some size ∧ size ≤ length) ∧
    (∀ (msg : Message) rest prior,
      parse (ofBytes (msg.encode ++ rest)) (msg.encode ++ rest).length prior = (true,msg.internal prior)) ∧
    (∀ (msg : Message) k prior, k < msg.encode.length →
      (parse (ofBytes (msg.encode.take k)) k prior).1 = false) ∧
    ∀ (memory : ℕ → Option UInt8) length prior, (∀ i < length, (memory i).isSome) →
      parseChecked memory length prior = some (parse (fun i => (memory i).getD 0) length prior) :=
  ⟨parse_accepts_iff,parse_encode,fun msg _ prior hk => parse_take msg hk prior,
    fun _ _ prior h => parseChecked_eq h prior⟩

/-- An execution report with every byte of its reference number different, in exactly 36 readable
bytes. -/
theorem parse_exactly_format_executed :
    let msg := Message.orderExecutedWithPrice ⟨1,2,3,0x0102030405060708⟩ 0x0A0B0C0D 4 'Y'.toUInt8 0x01000002
    parse (ofBytes (msg.encode ++ [])) (msg.encode ++ []).length ⟨0,0,0,0,.sell⟩ =
      (true,⟨'C'.toUInt8,0x0102030405060708,0x01000002,0x0A0B0C0D,.sell⟩) ∧
    parseChecked (fun i => msg.encode[i]?) 36 ⟨0,0,0,0,.sell⟩ =
      some (parse (fun i => (msg.encode[i]?).getD 0) 36 ⟨0,0,0,0,.sell⟩) := by
  refine ⟨parse_exactly_format.2.1 _ [] _,parse_exactly_format.2.2.2 _ 36 _ ?_⟩
  intro i hi
  rw [List.getElem?_eq_getElem (by rw [Message.length_encode]; exact hi)]
  rfl

end TickToTrade.Itch
