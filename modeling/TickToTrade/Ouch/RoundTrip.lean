import TickToTrade.Ouch.EnterOrder

/-! The Enter Order builder and the parser are inverse to each other: parsing what was built gives
the arguments back, and building from what was parsed gives the bytes back. -/
namespace TickToTrade.Ouch
open Bytes

/-- A string in a field of the given size: its first bytes, with spaces behind them. -/
def inField (src : Option CString) (size : ℕ) : List UInt8 :=
  ((match src with
    | none => []
    | some s => s.bytes) ++ List.replicate size ' '.toUInt8).take size

lemma copyStringPadded_eq_inField (src : Option CString) (size : ℕ) :
    copyStringPadded src size = inField src size := by
  have hcut : ∀ bytes : List UInt8, bytes.take size ++ List.replicate (size-bytes.length) ' '.toUInt8 =
      (bytes ++ List.replicate size ' '.toUInt8).take size := by
    intro bytes
    rw [List.take_append,List.take_replicate,Nat.min_eq_left (Nat.sub_le size bytes.length)]
  cases src with
  | none => exact hcut []
  | some s => exact hcut s.bytes

/-- The arguments that rebuild a parsed message, with strings that start with its string fields. -/
def EnterOrderMsg.rebuild (m : EnterOrderMsg) (token stock firm : CString) : EnterOrder where
  orderToken := some token
  buySell := m.buySellIndicator
  shares := m.shares
  stock := some stock
  price := m.price
  timeInForce := m.timeInForce
  firm := some firm
  display := m.display
  capacity := m.capacity
  iso := m.intermarketSweepEligibility
  minQty := m.minimumQuantity
  crossType := m.crossType
  customerType := m.customerType

/-- A string that starts with the bytes of a full field is copied as that field. -/
lemma copyStringPadded_of_prefix {s : CString} {field : List UInt8} (h : field <+: s.bytes) :
    copyStringPadded (some s) field.length = field := by
  have hlength := h.length_le
  simp only [copyStringPadded]
  rw [Nat.sub_eq_zero_of_le hlength,List.replicate_zero,List.append_nil]
  exact (List.prefix_iff_eq_take.mp h).symm

/-- What the parser accepts is rebuilt field by field. -/
theorem fields_rebuild {buffer : ℕ → UInt8} {length : ℕ} {prior m : EnterOrderMsg}
    (hparse : parseEnterOrder buffer length prior = (true,m)) {token stock firm : CString}
    (htoken : m.orderToken <+: token.bytes) (hstock : m.stock <+: stock.bytes)
    (hfirm : m.firm <+: firm.bytes) :
    (m.rebuild token stock firm).fields = fieldSlices buffer 0 enterOrderMsg := by
  obtain ⟨_,htype,rfl⟩ := parseEnterOrder_accepted hparse
  have hstring : ∀ {s : CString} (i n : ℕ), slice buffer i n <+: s.bytes →
      copyStringPadded (some s) n = slice buffer i n := by
    intro s i n hs
    have hcopy := copyStringPadded_of_prefix hs
    rwa [length_slice] at hcopy
  simp only [EnterOrder.fields,EnterOrderMsg.rebuild,bswap32_bswap32,hostBytes_load32,
    hstring 1 14 htoken,hstring 20 8 hstock,hstring 36 4 hfirm,← htype,← slice_one]
  rfl

/-- Building and parsing are inverse: for all arguments and every buffer with room the parser returns
them, strings cut and padded; and every accepted message of 49 bytes without NUL in its strings is
rebuilt from what was parsed. -/
theorem enterOrder_round_trip :
    (∀ (o : EnterOrder) buffer length outMsg, 49 ≤ length →
      (buildEnterOrder buffer length o).1 = true ∧
      parseEnterOrder (buildEnterOrder buffer length o).2 length outMsg =
        (true,⟨'O'.toUInt8,inField o.orderToken 14,o.buySell,o.shares,inField o.stock 8,o.price,
          o.timeInForce,inField o.firm 4,o.display,o.capacity,o.iso,o.minQty,o.crossType,o.customerType⟩)) ∧
    ∀ (bytes : List UInt8) prior m, bytes.length = 49 →
      parseEnterOrder (ofBytes bytes) 49 prior = (true,m) →
      0 ∉ m.orderToken → 0 ∉ m.stock → 0 ∉ m.firm →
      (∃ token stock firm : CString,
        token.bytes = m.orderToken ∧ stock.bytes = m.stock ∧ firm.bytes = m.firm) ∧
      ∀ token stock firm : CString,
        m.orderToken <+: token.bytes → m.stock <+: stock.bytes → m.firm <+: firm.bytes →
        ∀ buffer length, 49 ≤ length →
          (buildEnterOrder buffer length (m.rebuild token stock firm)).1 = true ∧
          slice (buildEnterOrder buffer length (m.rebuild token stock firm)).2 0 49 = bytes := by
  constructor
  · intro o buffer length outMsg hlength
    have hbuild : buildEnterOrder buffer length o = (true,storeFields buffer 0 o.fields) :=
      if_neg (Nat.not_lt.mpr hlength)
    rw [hbuild]
    refine ⟨rfl,(parse_storeFields o buffer hlength outMsg).trans ?_⟩
    simp only [EnterOrder.message,copyStringPadded_eq_inField]
  · intro bytes prior m hbytes hparse htoken hstock hfirm
    refine ⟨⟨⟨_,htoken⟩,⟨_,hstock⟩,⟨_,hfirm⟩,rfl,rfl,rfl⟩,?_⟩
    intro token stock firm htoken hstock hfirm buffer length hlength
    obtain ⟨hbuilt,hslice⟩ := (m.rebuild token stock firm).slice_buildEnterOrder buffer hlength
    refine ⟨hbuilt,?_⟩
    calc slice (buildEnterOrder buffer length (m.rebuild token stock firm)).2 0 49
        = (m.rebuild token stock firm).fields.flatten := hslice
      _ = slice (ofBytes bytes) 0 (packedSize enterOrderMsg) := by
        rw [fields_rebuild hparse htoken hstock hfirm,flatten_fieldSlices]
      _ = slice (ofBytes bytes) 0 bytes.length := by
        rw [hbytes]
        rfl
      _ = bytes := slice_ofBytes bytes

/-- A token of sixteen letters loses two, the missing stock is eight spaces; the message is rebuilt. -/
theorem enterOrder_round_trip_cut :
    let token : CString := ⟨List.replicate 16 65,by decide⟩
    let firm : CString := ⟨[84,69,83,84],by decide⟩
    let o : EnterOrder :=
      ⟨some token,'S'.toUInt8,300,none,15000,99998,some firm,'Y'.toUInt8,'O'.toUInt8,'N'.toUInt8,0,
        'N'.toUInt8,'N'.toUInt8⟩
    let m : EnterOrderMsg :=
      ⟨'O'.toUInt8,List.replicate 14 65,'S'.toUInt8,300,List.replicate 8 32,15000,99998,[84,69,83,84],
        'Y'.toUInt8,'O'.toUInt8,'N'.toUInt8,0,'N'.toUInt8,'N'.toUInt8⟩
    let stock : CString := ⟨List.replicate 8 32,by decide⟩
    parseEnterOrder (buildEnterOrder (fun _ => 0) 64 o).2 64 m = (true,m) ∧
      slice (buildEnterOrder (fun _ => 0) 64 (m.rebuild token stock firm)).2 0 49 = o.fields.flatten := by
  intro token firm o m stock
  obtain ⟨hthere,hback⟩ := enterOrder_round_trip
  obtain ⟨_,hrebuild⟩ := hback o.fields.flatten m m (by decide) (by decide) (by decide) (by decide) (by decide)
  refine ⟨(hthere o (fun _ => 0) 64 m (by decide)).2,?_⟩
  exact (hrebuild token stock firm (by decide) (by decide) (by decide) (fun _ => 0) 64 (by decide)).2

end TickToTrade.Ouch
