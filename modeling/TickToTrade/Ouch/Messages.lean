import TickToTrade.Exchange.Emulator
import TickToTrade.Library.Framing

/-! The three messages that the OUCH builder writes. They differ in length, but the first byte tells
which one it is, so a stream of them has one reading. The emulator reads only Enter Orders: what
begins with a Replace or a Cancel is passed over. -/
namespace TickToTrade.Ouch
open Bytes Framing

/-- Field sizes of the packed `ReplaceOrderMsg`. -/
def replaceOrderMsg : List ℕ := [1,14,14,4,4,4,1,1,4]

/-- Field sizes of the packed `CancelOrderMsg`. -/
def cancelOrderMsg : List ℕ := [1,14,4]

/-- The arguments of `build_replace_order` with their defaults. -/
structure ReplaceOrder where
  existingToken : Option CString
  replacementToken : Option CString
  shares : UInt32
  price : UInt32
  timeInForce : UInt32 := 99998
  display : UInt8 := 'Y'.toUInt8
  iso : UInt8 := 'N'.toUInt8
  minQty : UInt32 := 0

/-- The arguments of `build_cancel_order`. -/
structure CancelOrder where
  orderToken : Option CString
  shares : UInt32

/-- The struct, with its numbers in host order. -/
structure ReplaceOrderMsg where
  msgType : UInt8
  existingOrderToken : List UInt8
  replacementOrderToken : List UInt8
  shares : UInt32
  price : UInt32
  timeInForce : UInt32
  display : UInt8
  intermarketSweepEligibility : UInt8
  minimumQuantity : UInt32
  deriving DecidableEq, Repr

structure CancelOrderMsg where
  msgType : UInt8
  orderToken : List UInt8
  shares : UInt32
  deriving DecidableEq, Repr

def ReplaceOrder.fields (o : ReplaceOrder) : List (List UInt8) :=
  [['U'.toUInt8],
    copyStringPadded o.existingToken 14,
    copyStringPadded o.replacementToken 14,
    hostBytes 4 (bswap32 o.shares).toNat,
    hostBytes 4 (bswap32 o.price).toNat,
    hostBytes 4 (bswap32 o.timeInForce).toNat,
    [o.display],
    [o.iso],
    hostBytes 4 (bswap32 o.minQty).toNat]

def CancelOrder.fields (o : CancelOrder) : List (List UInt8) :=
  [['X'.toUInt8],
    copyStringPadded o.orderToken 14,
    hostBytes 4 (bswap32 o.shares).toNat]

def buildReplaceOrder (buffer : ℕ → UInt8) (length : ℕ) (o : ReplaceOrder) : Bool × (ℕ → UInt8) :=
  if length < packedSize replaceOrderMsg then (false,buffer) else (true,storeFields buffer 0 o.fields)

def buildCancelOrder (buffer : ℕ → UInt8) (length : ℕ) (o : CancelOrder) : Bool × (ℕ → UInt8) :=
  if length < packedSize cancelOrderMsg then (false,buffer) else (true,storeFields buffer 0 o.fields)

/-- A call of one of the three builders. -/
inductive Order
  | enter (o : EnterOrder)
  | replace (o : ReplaceOrder)
  | cancel (o : CancelOrder)

/-- What a message says: the arguments, with the strings cut and padded. -/
inductive OrderMsg
  | enter (m : EnterOrderMsg)
  | replace (m : ReplaceOrderMsg)
  | cancel (m : CancelOrderMsg)
  deriving DecidableEq, Repr

namespace Order

def layout : Order → List ℕ
  | enter _ => enterOrderMsg
  | replace _ => replaceOrderMsg
  | cancel _ => cancelOrderMsg

def fields : Order → List (List UInt8)
  | enter o => o.fields
  | replace o => o.fields
  | cancel o => o.fields

def message : Order → OrderMsg
  | enter o => .enter o.message
  | replace o => .replace ⟨'U'.toUInt8,copyStringPadded o.existingToken 14,copyStringPadded o.replacementToken 14,
      o.shares,o.price,o.timeInForce,o.display,o.iso,o.minQty⟩
  | cancel o => .cancel ⟨'X'.toUInt8,copyStringPadded o.orderToken 14,o.shares⟩

def build (buffer : ℕ → UInt8) (length : ℕ) : Order → Bool × (ℕ → UInt8)
  | enter o => buildEnterOrder buffer length o
  | replace o => buildReplaceOrder buffer length o
  | cancel o => buildCancelOrder buffer length o

/-- The bytes of the message. -/
def wire (o : Order) : List UInt8 := o.fields.flatten

lemma fields_length (o : Order) : o.fields.map List.length = o.layout := by
  cases o with
  | enter o => exact o.fields_length
  | replace o => simp [fields,ReplaceOrder.fields,layout,replaceOrderMsg]
  | cancel o => simp [fields,CancelOrder.fields,layout,cancelOrderMsg]

lemma length_wire (o : Order) : o.wire.length = packedSize o.layout := by
  rw [wire,List.length_flatten,o.fields_length]
  rfl

lemma build_eq (buffer : ℕ → UInt8) (length : ℕ) (o : Order) : o.build buffer length =
    if length < packedSize o.layout then (false,buffer) else (true,storeFields buffer 0 o.fields) := by
  cases o <;> rfl

/-- The size that the first byte announces. -/
def size (type : UInt8) : Option ℕ :=
  if type = 'O'.toUInt8 then some 49
  else if type = 'U'.toUInt8 then some 47
  else if type = 'X'.toUInt8 then some 19
  else none

lemma announced_wire (o : Order) : Announced size o.wire := by
  cases o with
  | enter o => exact ⟨'O'.toUInt8,rfl,(congrArg some (length_wire (.enter o))).symm⟩
  | replace o => exact ⟨'U'.toUInt8,rfl,(congrArg some (length_wire (.replace o))).symm⟩
  | cancel o => exact ⟨'X'.toUInt8,rfl,(congrArg some (length_wire (.cancel o))).symm⟩

/-- Messages of one kind with the same bytes have the same fields. -/
lemma fields_eq {o o' : Order} (hlayout : o.layout = o'.layout) (hwire : o.wire = o'.wire) : o.fields = o'.fields := by
  refine List.eq_iff_flatten_eq.mpr ⟨hwire,?_⟩
  rw [o.fields_length,o'.fields_length,hlayout]

lemma hostBytes_bswap32_inj {x y : UInt32} (h : hostBytes 4 (bswap32 x).toNat = hostBytes 4 (bswap32 y).toNat) :
    x = y := by
  rw [hostBytes_bswap32,hostBytes_bswap32,bigEndian_inj x.toNat_lt y.toNat_lt] at h
  exact UInt32.toNat_inj.mp h

def msgType : Order → UInt8
  | enter _ => 'O'.toUInt8
  | replace _ => 'U'.toUInt8
  | cancel _ => 'X'.toUInt8

lemma head?_wire (o : Order) : o.wire.head? = some o.msgType := by cases o <;> rfl

theorem message_eq {o o' : Order} (hwire : o.wire = o'.wire) : o.message = o'.message := by
  have htype := congrArg List.head? hwire
  rw [head?_wire,head?_wire] at htype
  cases o with
  | enter o =>
    cases o' with
    | enter o' =>
      have hparse := o.parse_wire ⟨0,[],0,0,[],0,0,[],0,0,0,0,0,0⟩
      rw [show o.wire = o'.wire from hwire,o'.parse_wire] at hparse
      exact congrArg OrderMsg.enter (Prod.mk.inj hparse).2.symm
    | replace o' => exact absurd (Option.some.inj htype) (by decide : 'O'.toUInt8 ≠ 'U'.toUInt8)
    | cancel o' => exact absurd (Option.some.inj htype) (by decide : 'O'.toUInt8 ≠ 'X'.toUInt8)
  | replace o =>
    cases o' with
    | enter o' => exact absurd (Option.some.inj htype) (by decide : 'U'.toUInt8 ≠ 'O'.toUInt8)
    | replace o' =>
      have hfields : (replace o).fields = (replace o').fields := fields_eq rfl hwire
      simp only [fields,ReplaceOrder.fields,List.cons.injEq,and_true,true_and] at hfields
      obtain ⟨hexisting,hreplacement,hshares,hprice,htime,hdisplay,hiso,hminQty⟩ := hfields
      simp only [message,hexisting,hreplacement,hostBytes_bswap32_inj hshares,hostBytes_bswap32_inj hprice,
        hostBytes_bswap32_inj htime,hdisplay,hiso,hostBytes_bswap32_inj hminQty]
    | cancel o' => exact absurd (Option.some.inj htype) (by decide : 'U'.toUInt8 ≠ 'X'.toUInt8)
  | cancel o =>
    cases o' with
    | enter o' => exact absurd (Option.some.inj htype) (by decide : 'X'.toUInt8 ≠ 'O'.toUInt8)
    | replace o' => exact absurd (Option.some.inj htype) (by decide : 'X'.toUInt8 ≠ 'U'.toUInt8)
    | cancel o' =>
      have hfields : (cancel o).fields = (cancel o').fields := fields_eq rfl hwire
      simp only [fields,CancelOrder.fields,List.cons.injEq,and_true,true_and] at hfields
      simp only [message,hfields.1,hostBytes_bswap32_inj hfields.2]

/-- The parser of the exchange looks at the first byte only, where it is not an `O`. -/
lemma parseEnterOrder_other {o : Order} (hother : ∀ enterOrder, o ≠ .enter enterOrder) (rest : List UInt8)
    (outMsg : EnterOrderMsg) :
    parseEnterOrder (ofBytes (o.wire ++ rest)) (o.wire ++ rest).length outMsg = (false,outMsg) := by
  have htype : ofBytes (o.wire ++ rest) (fieldOffset enterOrderMsg 0) ≠ 'O'.toUInt8 := by
    cases o with
    | enter o => exact absurd rfl (hother o)
    | replace o => exact (by decide : 'U'.toUInt8 ≠ 'O'.toUInt8)
    | cancel o => exact (by decide : 'X'.toUInt8 ≠ 'O'.toUInt8)
  rw [parseEnterOrder,if_pos htype,ite_self]

/-- Each builder writes its message and nothing else if there is room, and nothing if there is not. A
stream of messages of the three kinds has only one reading. The emulator does nothing about a `recv`
that begins with a Replace or a Cancel. -/
theorem built_messages :
    (∀ (o : Order) (buffer : ℕ → UInt8) (length : ℕ),
      (o.build buffer length).1 = decide (o.wire.length ≤ length) ∧
      (o.wire.length ≤ length → slice (o.build buffer length).2 0 o.wire.length = o.wire) ∧
      ∀ i, length < o.wire.length ∨ o.wire.length ≤ i → (o.build buffer length).2 i = buffer i) ∧
    (∀ orders orders' : List Order, (orders.map wire).flatten = (orders'.map wire).flatten →
      orders.map message = orders'.map message) ∧
    ∀ (o : Order) (rest : List UInt8) (s : ExchangeEmulator) (around : ExchangeEmulator.Surroundings),
      (∀ enterOrder, o ≠ .enter enterOrder) → s.clientCallback (.data (o.wire ++ rest)) around = some s := by
  refine ⟨?_,?_,?_⟩
  · intro o buffer length
    rw [o.build_eq,o.length_wire]
    by_cases hroom : length < packedSize o.layout
    · rw [if_pos hroom]
      exact ⟨(decide_eq_false (Nat.not_le.mpr hroom)).symm,fun hle => absurd hroom (Nat.not_lt.mpr hle),
        fun i _ => rfl⟩
    · rw [if_neg hroom]
      refine ⟨(decide_eq_true (Nat.not_lt.mp hroom)).symm,fun _ => ?_,fun i hi => ?_⟩
      · rw [storeFields_eq_store]
        exact slice_store o.length_wire buffer 0
      · dsimp only
        rw [storeFields_eq_store]
        apply store_of_le
        rw [Nat.zero_add,← wire,o.length_wire]
        exact hi.resolve_left hroom
  · intro orders orders' hstream
    have hannounced : ∀ orders : List Order, ∀ frame ∈ orders.map wire, Announced size frame := by
      intro orders frame hframe
      obtain ⟨o,_,rfl⟩ := List.mem_map.mp hframe
      exact o.announced_wire
    have hwires := eq_of_flatten_eq (hannounced orders) (hannounced orders') hstream
    clear hstream
    induction orders generalizing orders' with
    | nil =>
      obtain rfl : orders' = [] := by simpa using hwires.symm
      rfl
    | cons o orders ih =>
      cases orders' with
      | nil => simp at hwires
      | cons o' orders' =>
        obtain ⟨hfirst,hrest⟩ := List.cons.inj hwires
        rw [List.map_cons,List.map_cons,message_eq hfirst,ih orders' hrest]
  · intro o rest s around hother
    rw [ExchangeEmulator.clientCallback,parseEnterOrder_other hother]

/-- Three cancels in one `recv` are as long as an Enter Order, and are passed over. -/
theorem built_messages_three_cancels :
    let cancel : Order := .cancel ⟨some ⟨[79,49],by decide⟩,0⟩
    let bytes := cancel.wire ++ (cancel.wire ++ cancel.wire)
    49 ≤ bytes.length ∧ ∀ (s : ExchangeEmulator) around, s.clientCallback (.data bytes) around = some s :=
  ⟨by decide,fun s around => built_messages.2.2 _ _ s around (by simp)⟩

end Order
end TickToTrade.Ouch
