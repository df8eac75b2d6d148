import TickToTrade.Library.Bytes
import TickToTrade.OrderBook.Model

/-! The market-data messages and the parser that turns a datagram into one. A field that the
message does not carry keeps what the caller's object held. -/
namespace TickToTrade
open Bytes

/-- `Parser::InternalMessage`; the type is the first byte of the datagram. -/
structure InternalMessage where
  type : UInt8
  id : UInt64
  price : UInt64
  quantity : UInt64
  side : Side
  deriving DecidableEq, Repr

namespace Itch

/-- Field sizes of the packed structs: type, locate, tracking number, timestamp, order reference
number, and then the fields of the message. -/
def addOrderMsg : List ℕ := [1,2,2,6,8,1,4,8,4]

def orderCancelMsg : List ℕ := [1,2,2,6,8,4]

def orderDeleteMsg : List ℕ := [1,2,2,6,8]

def orderExecutedMsg : List ℕ := [1,2,2,6,8,4,8]

def orderExecutedWithPriceMsg : List ℕ := [1,2,2,6,8,4,8,1,4]

/-- `Parser::parse`: whether the message is relevant, and the caller's object afterwards. -/
def parse (buffer : ℕ → UInt8) (length : ℕ) (outMsg : InternalMessage) : Bool × InternalMessage :=
  if length = 0 then (false,outMsg)
  else
    let type := buffer 0
    let outMsg := { outMsg with type := type }
    if type = 'A'.toUInt8 then
      if length < packedSize addOrderMsg then (false,outMsg)
      else (true,{ outMsg with
        id := bswap64 (load64 buffer (fieldOffset addOrderMsg 4))
        quantity := (bswap32 (load32 buffer (fieldOffset addOrderMsg 6))).toUInt64
        price := (bswap32 (load32 buffer (fieldOffset addOrderMsg 8))).toUInt64
        side := if buffer (fieldOffset addOrderMsg 5) = 'B'.toUInt8 then .buy else .sell })
    else if type = 'X'.toUInt8 then
      if length < packedSize orderCancelMsg then (false,outMsg)
      else (true,{ outMsg with
        id := bswap64 (load64 buffer (fieldOffset orderCancelMsg 4))
        quantity := (bswap32 (load32 buffer (fieldOffset orderCancelMsg 5))).toUInt64 })
    else if type = 'D'.toUInt8 then
      if length < packedSize orderDeleteMsg then (false,outMsg)
      else (true,{ outMsg with id := bswap64 (load64 buffer (fieldOffset orderDeleteMsg 4)) })
    else if type = 'E'.toUInt8 then
      if length < packedSize orderExecutedMsg then (false,outMsg)
      else (true,{ outMsg with
        id := bswap64 (load64 buffer (fieldOffset orderExecutedMsg 4))
        quantity := (bswap32 (load32 buffer (fieldOffset orderExecutedMsg 5))).toUInt64 })
    else if type = 'C'.toUInt8 then
      if length < packedSize orderExecutedWithPriceMsg then (false,outMsg)
      else (true,{ outMsg with
        id := bswap64 (load64 buffer (fieldOffset orderExecutedWithPriceMsg 4))
        quantity := (bswap32 (load32 buffer (fieldOffset orderExecutedWithPriceMsg 5))).toUInt64
        price := (bswap32 (load32 buffer (fieldOffset orderExecutedWithPriceMsg 8))).toUInt64 })
    else (false,outMsg)

/-- The messages that a thread pushes when it receives the datagrams one after another, each with
what its message object held before. -/
def received (datagrams : List (List UInt8 × InternalMessage)) : List InternalMessage :=
  datagrams.filterMap fun (bytes,prior) =>
    match parse (ofBytes bytes) bytes.length prior with
    | (true,msg) => some msg
    | (false,_) => none

/-- Two functions that make the same tests are related if they are in each case. -/
lemma ite_related {α β : Type*} (R : α → β → Prop) {c : Prop} [Decidable c] {x y : α} {v w : β}
    (hpos : c → R x v) (hneg : ¬ c → R y w) : R (if c then x else y) (if c then v else w) := by
  split
  · exact hpos ‹c›
  · exact hneg ‹¬ c›

theorem parse_congr {buffer buffer' : ℕ → UInt8} {length : ℕ} (h : ∀ i < length, buffer i = buffer' i)
    (outMsg : InternalMessage) : parse buffer length outMsg = parse buffer' length outMsg := by
  have hid : ∀ {fields : List ℕ}, ¬ length < packedSize fields → fieldOffset fields 4 + 8 ≤ packedSize fields →
      load64 buffer (fieldOffset fields 4) = load64 buffer' (fieldOffset fields 4) :=
    fun hlong hinside => load64_congr h (hinside.trans (Nat.not_lt.mp hlong))
  have hword : ∀ {fields : List ℕ} (i : ℕ), ¬ length < packedSize fields →
      fieldOffset fields i + 4 ≤ packedSize fields →
      load32 buffer (fieldOffset fields i) = load32 buffer' (fieldOffset fields i) :=
    fun i hlong hinside => load32_congr h (hinside.trans (Nat.not_lt.mp hlong))
  refine ite_related Eq (fun _ => rfl) fun hlength => ?_
  rw [h 0 (by omega)]
  refine ite_related Eq (fun _ => ite_related Eq (fun _ => rfl) fun hlong => ?_) fun _ =>
    ite_related Eq (fun _ => ite_related Eq (fun _ => rfl) fun hlong => ?_) fun _ =>
    ite_related Eq (fun _ => ite_related Eq (fun _ => rfl) fun hlong => ?_) fun _ =>
    ite_related Eq (fun _ => ite_related Eq (fun _ => rfl) fun hlong => ?_) fun _ =>
    ite_related Eq (fun _ => ite_related Eq (fun _ => rfl) fun hlong => ?_) fun _ => rfl
  · have hside : fieldOffset addOrderMsg 5 < length :=
      Nat.lt_of_lt_of_le (by decide : _ < packedSize addOrderMsg) (Nat.not_lt.mp hlong)
    rw [hid hlong (by decide),hword 6 hlong (by decide),hword 8 hlong (by decide),h _ hside]
  · rw [hid hlong (by decide),hword 5 hlong (by decide)]
  · rw [hid hlong (by decide)]
  · rw [hid hlong (by decide),hword 5 hlong (by decide)]
  · rw [hid hlong (by decide),hword 5 hlong (by decide),hword 8 hlong (by decide)]

end Itch

/-- The message with the fields that its type does not carry cleared. -/
def InternalMessage.canonical (msg : InternalMessage) : InternalMessage :=
  if msg.type = 'A'.toUInt8 then msg
  else if msg.type = 'C'.toUInt8 then { msg with side := .buy }
  else if msg.type = 'D'.toUInt8 then { msg with price := 0, quantity := 0, side := .buy }
  else { msg with price := 0, side := .buy }

lemma InternalMessage.canonical_of_add (msg : InternalMessage) (h : msg.type = 'A'.toUInt8) :
    msg.canonical = msg := if_pos h

@[simp] lemma InternalMessage.canonical_type (msg : InternalMessage) : msg.canonical.type = msg.type := by
  unfold InternalMessage.canonical
  split_ifs <;> rfl

@[simp] lemma InternalMessage.canonical_id (msg : InternalMessage) : msg.canonical.id = msg.id := by
  unfold InternalMessage.canonical
  split_ifs <;> rfl

lemma InternalMessage.canonical_quantity (msg : InternalMessage) (h : msg.type ≠ 'D'.toUInt8) :
    msg.canonical.quantity = msg.quantity := by
  unfold InternalMessage.canonical
  split_ifs <;> rfl

/-- Whether a datagram is accepted, and what its message carries, does not depend on what the
caller's object held. -/
theorem Itch.parse_canonical (buffer : ℕ → UInt8) (length : ℕ) (prior prior' : InternalMessage) :
    (parse buffer length prior).1 = (parse buffer length prior').1 ∧
    ((parse buffer length prior).1 = true →
      (parse buffer length prior).2.canonical = (parse buffer length prior').2.canonical) := by
  -- an accepted message has the type of its branch, which decides what is cleared
  let R (x y : Bool × InternalMessage) : Prop := x.1 = y.1 ∧ (x.1 = true → x.2.canonical = y.2.canonical)
  have hrejected : ∀ msg msg', R (false,msg) (false,msg') := fun _ _ => ⟨rfl,fun h => by contradiction⟩
  unfold parse
  dsimp only
  generalize buffer 0 = type
  refine ite_related R (fun _ => hrejected _ _) fun _ =>
    ite_related R (fun htype => ite_related R (fun _ => hrejected _ _) fun _ => ⟨rfl,fun _ => ?_⟩) fun _ =>
    ite_related R (fun htype => ite_related R (fun _ => hrejected _ _) fun _ => ⟨rfl,fun _ => ?_⟩) fun _ =>
    ite_related R (fun htype => ite_related R (fun _ => hrejected _ _) fun _ => ⟨rfl,fun _ => ?_⟩) fun _ =>
    ite_related R (fun htype => ite_related R (fun _ => hrejected _ _) fun _ => ⟨rfl,fun _ => ?_⟩) fun _ =>
    ite_related R (fun htype => ite_related R (fun _ => hrejected _ _) fun _ => ⟨rfl,fun _ => ?_⟩) fun _ =>
    hrejected _ _
  all_goals
    subst htype
    rfl

end TickToTrade
