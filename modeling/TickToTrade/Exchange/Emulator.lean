import TickToTrade.Itch.Builder
import TickToTrade.Library.Run

/-! The exchange emulator: an Enter Order received on a client socket becomes an Add Order on the
multicast channel. The parsed struct's stock field has no NUL of its own, so the builder's search
for one goes on through the fields behind it. -/
namespace TickToTrade
open Bytes Ouch Itch

namespace Ouch

/-- The bytes of the parsed struct from its stock field to its end; the numbers are in host order. -/
def EnterOrderMsg.fromStock (msg : EnterOrderMsg) : List UInt8 :=
  msg.stock ++ (hostBytes 4 msg.price.toNat ++ hostBytes 4 msg.timeInForce.toNat ++ msg.firm ++
    [msg.display,msg.capacity,msg.intermarketSweepEligibility] ++ hostBytes 4 msg.minimumQuantity.toNat ++
    [msg.crossType,msg.customerType])

lemma zero_notMem_copyStringPadded (src : Option CString) (size : ℕ) : 0 ∉ copyStringPadded src size := by
  have hspace : ' '.toUInt8 ≠ 0 := by decide
  unfold copyStringPadded
  cases src with
  | none => simpa using fun _ => Ne.symm hspace
  | some s =>
    intro h
    rcases List.mem_append.mp h with h | h
    · exact s.no_nul (List.mem_of_mem_take h)
    · exact hspace (List.mem_replicate.mp h).2.symm

end Ouch

/-- What `recv` on the client socket gives to the callback. -/
inductive RecvResult
  | data (bytes : List UInt8)
  | disconnected
  | error

/-- The state behind the callback: the counter, the datagrams sent, and whether the socket is
still open. -/
structure ExchangeEmulator where
  orderRefCounter : UInt64
  broadcast : List (List UInt8)
  clientOpen : Bool

namespace ExchangeEmulator

def init : ExchangeEmulator := ⟨500000,[],true⟩

/-- The Add Order for a parsed message; locate and tracking number are fixed. -/
def addOrder (msg : EnterOrderMsg) (tsNs orderRef : UInt64) : AddOrder :=
  ⟨1,1,tsNs,orderRef,msg.buySellIndicator,msg.shares,some msg.fromStock,msg.price⟩

/-- What the callback finds around it: its uninitialised locals and the clock. -/
structure Surroundings where
  ouchMsg : EnterOrderMsg
  itchBuffer : ℕ → UInt8
  tsNs : UInt64

/-- The client-socket callback; it looks at one message per `recv`. -/
def clientCallback (s : ExchangeEmulator) (recv : RecvResult) (around : Surroundings) : Option ExchangeEmulator :=
  match recv with
  | .disconnected => some { s with clientOpen := false }
  | .error => some s
  | .data bytes =>
    match parseEnterOrder (ofBytes bytes) bytes.length around.ouchMsg with
    | (false,_) => some s
    | (true,ouchMsg) => do
      let (built,itchBuffer) ← buildAddOrder around.itchBuffer 128 (addOrder ouchMsg around.tsNs s.orderRefCounter)
      let s := { s with orderRefCounter := s.orderRefCounter + 1 }
      if built then
        some { s with broadcast := s.broadcast ++ [slice itchBuffer 0 (packedSize addOrderMsg)] }
      else some s

/-- The datagram announces the order under the reference number: its shares, price and side. -/
def Announces (o : EnterOrder) (orderRef : UInt64) (datagram : List UInt8) : Prop :=
  ∀ prior, Itch.parse (ofBytes datagram) datagram.length prior = (true,⟨'A'.toUInt8,orderRef,o.price.toUInt64,
    o.shares.toUInt64,if o.buySell = 'B'.toUInt8 then .buy else .sell⟩)

/-- The search for the NUL ends inside the struct. -/
def NulBehind (o : EnterOrder) : Prop := 0 ∈ o.message.fromStock

instance (o : EnterOrder) : Decidable (NulBehind o) := inferInstanceAs (Decidable (_ ∈ _))

lemma nulBehind_of_timeInForce {o : EnterOrder} (h : 0 ∈ hostBytes 4 o.timeInForce.toNat) : NulBehind o := by
  simp [NulBehind,EnterOrder.message,EnterOrderMsg.fromStock,h]

lemma stockField_message {o : EnterOrder} (h : NulBehind o) :
    stockField (some o.message.fromStock) = some (copyStringPadded o.stock 8) := by
  have hstock : 0 ∉ copyStringPadded o.stock 8 := zero_notMem_copyStringPadded o.stock 8
  exact stockField_of_no_nul (length_copyStringPadded _ _) hstock ((List.mem_append.mp h).resolve_left hstock)

lemma parse_datagram (o : AddOrder) {stock : List UInt8} (hstock : stock.length = 8) (buffer : ℕ → UInt8)
    (prior : InternalMessage) :
    Itch.parse (ofBytes (slice (storeFields buffer 0 (o.fields stock)) 0 (packedSize addOrderMsg)))
      (packedSize addOrderMsg) prior = (true,o.message) := by
  rw [storeFields_eq_store,slice_store (o.length_flatten_fields hstock),← store_zero_eq_ofBytes,← storeFields_eq_store]
  exact Itch.parse_storeFields o hstock _ (Nat.le_refl _) prior

/-- One whole message in one `recv` is announced, if the search for the NUL ends. -/
theorem clientCallback_wire (s : ExchangeEmulator) {o : EnterOrder} (hnul : NulBehind o) (around : Surroundings) :
    ∃ datagram, s.clientCallback (.data o.wire) around =
      some { s with orderRefCounter := s.orderRefCounter + 1, broadcast := s.broadcast ++ [datagram] } ∧
      Announces o s.orderRefCounter datagram := by
  have hbuild := buildAddOrder_eq (o := addOrder o.message around.tsNs s.orderRefCounter)
    (stockField_message hnul) around.itchBuffer (by decide : packedSize addOrderMsg ≤ 128)
  refine ⟨slice (storeFields around.itchBuffer 0 ((addOrder o.message around.tsNs s.orderRefCounter).fields
    (copyStringPadded o.stock 8))) 0 (packedSize addOrderMsg),?_,fun prior => ?_⟩
  · simp only [clientCallback,o.parse_wire,hbuild]
    rfl
  · rw [length_slice]
    exact parse_datagram _ (length_copyStringPadded _ _) _ prior

lemma clientCallback_wire_overruns (s : ExchangeEmulator) {o : EnterOrder} (hnul : ¬ NulBehind o)
    (around : Surroundings) : s.clientCallback (.data o.wire) around = none := by
  have hnone : stockField (some o.message.fromStock) = none := by
    rw [← Option.not_isSome_iff_eq_none,stockField_isSome_iff]
    exact hnul
  have hbuild : buildAddOrder around.itchBuffer 128 (addOrder o.message around.tsNs s.orderRefCounter) = none := by
    rw [buildAddOrder,if_neg (by decide),addOrder,hnone]
    rfl
  simp only [clientCallback,o.parse_wire,hbuild]
  rfl

/-- An order that is encoded, parsed by the emulator, announced and parsed by the book keeps its
shares, its price, its side and its stock. -/
theorem relay_keeps_order (orderToken stock : Option CString) (side : UInt8) (shares price : UInt32)
    (stockLocate trackingNumber : UInt16) (timestamp orderRef : UInt64) (ouchBuffer itchBuffer : ℕ → UInt8)
    (length : ℕ) (hlength : 49 ≤ length) (outMsg : EnterOrderMsg) (prior : InternalMessage) :
    ∃ wire msg itch,
      buildEnterOrder ouchBuffer length
        { orderToken := orderToken, buySell := side, shares := shares, stock := stock, price := price } = (true,wire) ∧
      parseEnterOrder wire length outMsg = (true,msg) ∧
      buildAddOrder itchBuffer 128 ⟨stockLocate,trackingNumber,timestamp,orderRef,msg.buySellIndicator,msg.shares,
        some msg.fromStock,msg.price⟩ = some (true,itch) ∧
      Itch.parse itch (packedSize addOrderMsg) prior = (true,⟨'A'.toUInt8,orderRef,price.toUInt64,shares.toUInt64,
        if side = 'B'.toUInt8 then .buy else .sell⟩) ∧
      slice itch (fieldOffset addOrderMsg 7) 8 = copyStringPadded stock 8 := by
  let o : EnterOrder := { orderToken := orderToken, buySell := side, shares := shares, stock := stock, price := price }
  -- the host bytes of the default time in force end with a zero
  have htime : 0 ∈ hostBytes 4 (UInt32.toNat 99998) := by decide
  have hnul : NulBehind o := nulBehind_of_timeInForce htime
  refine ⟨_,o.message,_,if_neg (Nat.not_lt.mpr hlength),Ouch.parse_storeFields o ouchBuffer hlength outMsg,
    buildAddOrder_eq (stockField_message hnul) itchBuffer (by decide),?_,?_⟩
  · exact Itch.parse_storeFields _ (length_copyStringPadded _ _) itchBuffer (Nat.le_refl _) prior
  · exact slice_stock _ (length_copyStringPadded _ _) itchBuffer

/-- A buy of 100 shares of AAPL at 15000 in a buffer of just the size of the message. -/
theorem relay_keeps_order_aapl : ∃ wire msg itch,
    buildEnterOrder (fun _ => 0) 49
      { orderToken := some ⟨[79,49],by decide⟩, buySell := 66, shares := 100,
        stock := some ⟨[65,65,80,76],by decide⟩, price := 15000 } = (true,wire) ∧
    parseEnterOrder wire 49 ⟨0,[],0,0,[],0,0,[],0,0,0,0,0,0⟩ = (true,msg) ∧
    buildAddOrder (fun _ => 0) 128 ⟨1,1,7,500000,msg.buySellIndicator,msg.shares,some msg.fromStock,msg.price⟩ =
      some (true,itch) ∧
    Itch.parse itch 36 ⟨0,0,0,0,.sell⟩ = (true,⟨65,500000,15000,100,.buy⟩) ∧
    slice itch 24 8 = [65,65,80,76,32,32,32,32] :=
  relay_keeps_order (some ⟨[79,49],by decide⟩) (some ⟨[65,65,80,76],by decide⟩) 66 100 15000 1 1 7 500000
    (fun _ => 0) (fun _ => 0) 49 (by decide) _ _

lemma mem_fromStock_iff {buffer : ℕ → UInt8} {length : ℕ} {prior m : EnterOrderMsg}
    (haccepted : parseEnterOrder buffer length prior = (true,m)) {b : UInt8} :
    b ∈ m.fromStock ↔ ∃ i, 20 ≤ i ∧ i < 49 ∧ buffer i = b := by
  obtain ⟨_,_,rfl⟩ := parseEnterOrder_accepted haccepted
  have hstruct : b ∈ slice buffer 20 29 ↔ ∃ i, 20 ≤ i ∧ i < 20 + 29 ∧ buffer i = b := mem_slice
  have hfields : (fieldSlices buffer 20 [8,4,4,4,1,1,1,4,1,1]).flatten = slice buffer 20 29 :=
    flatten_fieldSlices buffer 20 [8,4,4,4,1,1,1,4,1,1]
  have hbyte : ∀ i, b = buffer i ↔ b ∈ slice buffer i 1 := by
    intro i
    rw [slice_one,List.mem_singleton]
  rw [← hstruct,← hfields]
  simp only [EnterOrderMsg.fromStock,List.mem_append,List.mem_cons,List.not_mem_nil,or_false,
    mem_hostBytes_bswap32_load32,hbyte,fieldSlices,List.flatten_cons,List.flatten_nil,or_assoc]

/-- For every accepted message the search for the end of the stock stays inside the parsed struct if
and only if a zero was received in the stock field or behind it. -/
theorem strlen_inside_iff {buffer : ℕ → UInt8} {length : ℕ} {prior m : EnterOrderMsg}
    (haccepted : parseEnterOrder buffer length prior = (true,m)) :
    (∃ n, strlen m.fromStock = some n ∧ n < m.fromStock.length) ↔ ∃ i, 20 ≤ i ∧ i < 49 ∧ buffer i = 0 := by
  rw [← mem_fromStock_iff haccepted,← strlen_isSome_iff,Option.isSome_iff_exists]
  constructor
  · intro ⟨n,hn,_⟩
    exact ⟨n,hn⟩
  · intro ⟨n,hn⟩
    obtain ⟨hlt,_⟩ := List.findIdx?_eq_some_iff_getElem.mp hn
    exact ⟨n,hn,hlt⟩

/-- The only zero is the last byte, which is the customer type. -/
theorem strlen_inside_customerType :
    let bytes : List UInt8 := 'O'.toUInt8 :: List.replicate 47 65 ++ [0]
    let prior : EnterOrderMsg := ⟨0,[],0,0,[],0,0,[],0,0,0,0,0,0⟩
    let m := (parseEnterOrder (ofBytes bytes) 49 prior).2
    ∃ n, strlen m.fromStock = some n ∧ n < m.fromStock.length := by
  intro bytes prior m
  have haccepted : parseEnterOrder (ofBytes bytes) 49 prior = (true,m) := Prod.ext (by decide) rfl
  exact (strlen_inside_iff haccepted).mpr ⟨48,by decide,by decide,by decide⟩

/-- An accepted message of letters only has no zero for the search to end at. -/
theorem strlen_overruns :
    let bytes : List UInt8 := 'O'.toUInt8 :: List.replicate 48 65
    let prior : EnterOrderMsg := ⟨0,[],0,0,[],0,0,[],0,0,0,0,0,0⟩
    ∃ m, parseEnterOrder (ofBytes bytes) 49 prior = (true,m) ∧
      ¬ ∃ n, strlen m.fromStock = some n ∧ n < m.fromStock.length := by
  intro bytes prior
  refine ⟨(parseEnterOrder (ofBytes bytes) 49 prior).2,Prod.ext (by decide) rfl,?_⟩
  intro ⟨n,hn,_⟩
  have hnone : strlen (parseEnterOrder (ofBytes bytes) 49 prior).2.fromStock = none := by decide
  rw [hnone] at hn
  contradiction

end ExchangeEmulator
end TickToTrade
