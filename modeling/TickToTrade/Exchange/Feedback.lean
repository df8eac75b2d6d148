import TickToTrade.Exchange.Emulator
import TickToTrade.Library.Framing
import TickToTrade.Pipeline.Threads

/-! What the emulator can make of the orders that the market makers send. Messages may be torn by the
socket and cut anywhere by `recv`, so a message may seem to start at any `O` of the stream. No such
message is a buy: the byte that would stand in its side field is never a `B`. -/
namespace TickToTrade
open Bytes Ouch Itch Framing

/-- No byte that can be taken for a side is a `B`. -/
def NoBuys (stream : List UInt8) : Prop := Guarded 15 'O'.toUInt8 'B'.toUInt8 stream

namespace StrategyEngine
variable {kernel : KernelSend} {s s' : StrategyEngine} {req : OrderRequest} {outcome : SendOutcome}

lemma copyStringPadded_orderToken (id : UInt64) : copyStringPadded (some (orderToken id)) 14 =
    ['O'.toUInt8,'R'.toUInt8,'D'.toUInt8] ++ (decimalPadded 11 id.toNat).take 11 := by
  have hdigits := le_length_decimalPadded 11 id.toNat
  have htoken : (orderToken id).bytes = ['O'.toUInt8,'R'.toUInt8,'D'.toUInt8] ++ (decimalPadded 11 id.toNat).take 11 :=
    List.take_append (i := 14) ..
  have hlength : (orderToken id).bytes.length = 14 := by
    rw [htoken,List.length_append,List.length_take,min_eq_left hdigits]
    rfl
  rw [copyStringPadded,← htoken,hlength,List.take_of_length_le hlength.le]
  exact List.append_nil _

/-- A sell order of fewer than `2 ^ 24` shares: the first byte of the shares is zero. -/
lemma noBuys_wireBytes (hside : req.side = 'S'.toUInt8) (hshares : req.shares.toNat < 2 ^ 24) (id : UInt64) :
    NoBuys (wireBytes req id) := by
  have hwire : wireBytes req id = (req.enterOrder id).wire :=
    ((req.enterOrder id).slice_buildEnterOrder req.ouchBuffer (by decide : 49 ≤ 64)).2
  have hbytes : bigEndian 4 req.shares.toNat = 0 :: bigEndian 3 req.shares.toNat := bigEndian_succ_of_lt hshares
  have htime : bigEndian 4 (UInt32.toNat 99998) = [0,1,134,158] := by decide
  have hminQty : bigEndian 4 (UInt32.toNat 0) = [0,0,0,0] := by decide
  have hfirm : copyStringPadded (some ⟨['T'.toUInt8,'E'.toUInt8,'S'.toUInt8,'T'.toUInt8],by decide⟩) 4 =
      [84,69,83,84] := by decide
  have hparts : (req.enterOrder id).wire =
      ('O'.toUInt8 :: (['O'.toUInt8,'R'.toUInt8,'D'.toUInt8] ++ (decimalPadded 11 id.toNat).take 11) ++ ['S'.toUInt8,0]) ++
      (bigEndian 3 req.shares.toNat ++ copyStringPadded req.symbol 8 ++ bigEndian 4 req.price.toNat) ++
      [0,1,134,158,84,69,83,84,89,79,78,0,0,0,0,78,78] := by
    simp only [EnterOrder.wire,EnterOrder.fields,OrderRequest.enterOrder,hostBytes_bswap32,hside,hbytes,htime,hminQty,
      hfirm,copyStringPadded_orderToken]
    simp
    decide
  have hdigit : ∀ {x y : UInt8}, x ∈ (decimalPadded 11 id.toNat).take 11 → 57 < y.toNat → x ≠ y := by
    rintro x y hx hy rfl
    have := digit_of_mem_decimalPadded (List.mem_of_mem_take hx)
    omega
  rw [hwire,hparts]
  refine guarded_of_parts (k := 2) ?_ ?_ ?_ ?_
  · have hlength := le_length_decimalPadded 11 id.toNat
    simp only [List.length_append,List.length_cons,List.length_nil,List.length_take]
    omega
  · simp
  · refine List.forall_mem_append.mpr ⟨List.forall_mem_append.mpr ⟨List.forall_mem_cons.mpr ⟨by decide,?_⟩,?_⟩,?_⟩
    · exact List.forall_mem_append.mpr ⟨List.forall_mem_ne'.mpr (by decide),fun x hx => hdigit hx (by decide)⟩
    · exact List.forall_mem_ne'.mpr (by decide)
    · exact List.forall_mem_ne'.mpr (by decide)
  · refine List.forall_mem_append.mpr ⟨List.forall_mem_append.mpr ⟨?_,fun x hx => hdigit hx (by decide)⟩,?_⟩
    · exact List.forall_mem_ne'.mpr (by decide)
    · exact List.forall_mem_ne'.mpr (by decide)

theorem sendOrder_accepted (h : s.sendOrder kernel req = some (outcome,s')) :
    s'.riskEngine.config = s.riskEngine.config ∧
    (s'.tcpEgress.accepted = s.tcpEgress.accepted ∨ req.check s.riskEngine = some .approved ∧
      ∃ k, s'.tcpEgress.accepted = s.tcpEgress.accepted ++ (wireBytes req s.orderIdCounter).take k) := by
  cases hcheck : req.check s.riskEngine with
  | none => simp [sendOrder,hcheck] at h
  | some status =>
    by_cases hstatus : status = .approved
    · subst hstatus
      cases hems : s.ems.onOrderSent s.orderIdCounter req.price req.shares with
      | none =>
        rw [sendOrder_of_stuck hcheck hems] at h
        contradiction
      | some result =>
        obtain ⟨ok,ems⟩ := result
        have hlen : (wireBytes req s.orderIdCounter).length = packedSize enterOrderMsg := length_slice _ _ _
        have hne : wireBytes req s.orderIdCounter ≠ [] := by
          apply List.ne_nil_of_length_pos
          rw [hlen]
          decide
        obtain ⟨sent,gateway,k,hsend,haccepted,_⟩ :=
          s.tcpEgress.send_spec kernel req.fd (wireBytes req s.orderIdCounter) hne
        have hencoded : buildEnterOrder req.ouchBuffer 64 (req.enterOrder s.orderIdCounter) =
            (true,storeFields req.ouchBuffer 0 (req.enterOrder s.orderIdCounter).fields) := if_neg (by decide)
        unfold wireBytes at hsend
        simp only [sendOrder,hcheck,hems,hencoded,hsend,Option.bind_eq_bind,Option.bind_some,ne_eq,not_true,if_false,
          if_true,Option.some.injEq,Prod.mk.injEq] at h
        obtain ⟨_,rfl⟩ := h
        exact ⟨rfl,.inr ⟨rfl,k,haccepted⟩⟩
    · rw [sendOrder_of_rejected hcheck hstatus] at h
      obtain ⟨_,rfl⟩ := Prod.mk.inj (Option.some.inj h)
      exact ⟨rfl,.inl rfl⟩

/-- The stream so far has no buys in it, and the risk limit keeps it so. -/
structure SellsOnly (s : StrategyEngine) : Prop where
  stream : NoBuys s.tcpEgress.accepted
  limited : s.riskEngine.config.maxOrderSize.toNat < 2 ^ 24

lemma SellsOnly.sendOrder (h : s.SellsOnly) (hside : req.side = 'S'.toUInt8)
    (hsend : s.sendOrder kernel req = some (outcome,s')) : s'.SellsOnly := by
  obtain ⟨hconfig,haccepted⟩ := sendOrder_accepted hsend
  refine ⟨?_,by rw [hconfig]; exact h.limited⟩
  rcases haccepted with haccepted | ⟨hcheck,k,haccepted⟩
  · rw [haccepted]
    exact h.stream
  · have hsize := UInt32.le_iff_toNat_le.mp (PreTradeRiskEngine.approved_spec hcheck).1
    have hframe := noBuys_wireBytes hside (hsize.trans_lt h.limited) s.orderIdCounter
    rw [haccepted]
    exact h.stream.append (hframe.of_isPrefix (List.take_prefix k _))

end StrategyEngine

/-- What a market maker reacts to, up to its price. -/
def InternalMessage.Bids (msg : InternalMessage) : Prop := msg.type = 'A'.toUInt8 ∧ msg.side = .buy

instance (msg : InternalMessage) : Decidable msg.Bids := inferInstanceAs (Decidable (_ ∧ _))

section Updates
variable {kernel : KernelSend} {deviates : UInt32 → UInt32 → Bool} {msg : InternalMessage} {s s' : StrategyEngine}
  {handed : List (List UInt8)}

lemma StrategyEngine.SellsOnly.strategy {site : CallSite} {strategy u : MarketMakerStrategy} (h : s.SellsOnly)
    (hs : strategy.onMarketDataUpdate kernel deviates msg site s = some (handed,u,s')) : s'.SellsOnly := by
  unfold MarketMakerStrategy.onMarketDataUpdate at hs
  split at hs
  · obtain ⟨_,_,rfl⟩ := by simpa using hs
    exact h
  · split at hs
    · obtain ⟨⟨outcome,s₁⟩,hsend,hs⟩ := Option.bind_eq_some_iff.mp hs
      obtain ⟨_,_,rfl⟩ := by simpa using hs
      exact h.sendOrder rfl hsend
    · obtain ⟨_,_,rfl⟩ := by simpa using hs
      exact h

lemma StrategyEngine.SellsOnly.update {site : ℕ → CallSite} {strategies us : List MarketMakerStrategy}
    (h : s.SellsOnly) (hs : s.onMarketDataUpdate kernel deviates msg site strategies = some (handed,us,s')) :
    s'.SellsOnly := by
  induction strategies generalizing s handed us with
  | nil =>
    obtain ⟨_,_,rfl⟩ := by simpa [StrategyEngine.onMarketDataUpdate] using hs
    exact h
  | cons strategy strategies ih =>
    obtain ⟨⟨first,u,s₁⟩,hfirst,hs⟩ := Option.bind_eq_some_iff.mp hs
    obtain ⟨⟨rest,vs,s₂⟩,hrest,hs⟩ := Option.bind_eq_some_iff.mp hs
    obtain ⟨_,_,rfl⟩ := by simpa using hs
    exact ih (h.strategy hfirst) hrest

lemma StrategyEngine.onMarketDataUpdate_of_not_bids (hmsg : ¬ msg.Bids) (kernel : KernelSend)
    (deviates : UInt32 → UInt32 → Bool) (site : ℕ → CallSite) (s : StrategyEngine)
    (strategies : List MarketMakerStrategy) :
    s.onMarketDataUpdate kernel deviates msg site strategies = some ([],strategies,s) := by
  induction strategies with
  | nil => rfl
  | cons strategy strategies ih =>
    have hfirst : strategy.onMarketDataUpdate kernel deviates msg (site strategies.length) s = some ([],strategy,s) := by
      rw [MarketMakerStrategy.onMarketDataUpdate,if_neg (fun h => hmsg ⟨h.1,h.2.1⟩ : ¬ (_ ∧ _ ∧ _)),ite_self]
    simp only [StrategyEngine.onMarketDataUpdate,hfirst,ih,Option.bind_eq_bind,Option.bind_some,List.append_nil]

end Updates

/-- A datagram in which the market-data callback never finds a bid. -/
def NoBid (datagram : List UInt8) : Prop :=
  ∀ buffer prior msg, Main.udpCallback buffer prior datagram = some msg → ¬ msg.Bids

lemma Itch.length_of_stockField {o : Option (List UInt8)} {stock : List UInt8} (h : stockField o = some stock) :
    stock.length = 8 := by
  cases o with
  | none =>
    obtain rfl := Option.some.inj h
    rfl
  | some readable =>
    obtain ⟨⟨bytes,len⟩,hlen,h⟩ := Option.bind_eq_some_iff.mp h
    obtain ⟨n,hn,hpair⟩ := Option.map_eq_some_iff.mp hlen
    obtain ⟨rfl,rfl⟩ := Prod.mk.inj hpair
    obtain ⟨hlt,_⟩ := List.findIdx?_eq_some_iff_getElem.mp hn
    obtain rfl := Option.some.inj h
    simp only [List.length_append,List.length_take,List.length_replicate]
    omega

lemma noBid_datagram {o : AddOrder} (hside : o.buySell ≠ 'B'.toUInt8) {stock : List UInt8} (hstock : stock.length = 8)
    (buffer : ℕ → UInt8) : NoBid (slice (storeFields buffer 0 (o.fields stock)) 0 (packedSize addOrderMsg)) := by
  intro buffer' prior msg hmsg
  have hparse := ExchangeEmulator.parse_datagram o hstock buffer prior
  generalize hdatagram : slice (storeFields buffer 0 (o.fields stock)) 0 (packedSize addOrderMsg) = datagram at *
  have hlength : datagram.length = packedSize addOrderMsg := by rw [← hdatagram,length_slice]
  have htake : datagram.take 2048 = datagram := List.take_of_length_le (by rw [hlength]; decide)
  have hread : ∀ i < datagram.length, store buffer' 0 datagram i = ofBytes datagram i := by
    intro i hi
    simp [store,ofBytes,hi]
  unfold Main.udpCallback at hmsg
  dsimp only at hmsg
  rw [htake,parse_congr hread prior,hlength,hparse,if_pos (by decide)] at hmsg
  obtain rfl := Option.some.inj hmsg
  intro hbids
  have hsell : o.message.side = .sell := if_neg hside
  exact absurd (hsell.symm.trans hbids.2) (by decide)

/-- Wherever in such a stream the client's callback begins to read, what it announces is no bid. -/
theorem ExchangeEmulator.clientCallback_noBid {s s' : ExchangeEmulator} {around : Surroundings}
    {stream bytes : List UInt8} {received : ℕ} (hstream : NoBuys stream) (hbytes : bytes <+: stream.drop received)
    (h : s.clientCallback (.data bytes) around = some s') :
    s'.broadcast = s.broadcast ∨ ∃ datagram, s'.broadcast = s.broadcast ++ [datagram] ∧ NoBid datagram := by
  simp only [clientCallback] at h
  split at h
  · obtain rfl := Option.some.inj h
    exact .inl rfl
  · rename_i ouchMsg hparse
    obtain ⟨⟨built,itchBuffer⟩,hbuild,h⟩ := Option.bind_eq_some_iff.mp h
    dsimp only at h
    split at h
    · rename_i hbuilt
      obtain rfl := Option.some.inj h
      refine .inr ⟨_,rfl,?_⟩
      obtain ⟨hlength,htype,hmsg⟩ := parseEnterOrder_accepted hparse
      have hbyte : ∀ {i}, i < 49 → stream[received + i]? = some (ofBytes bytes i) := by
        intro i hi
        have hi' : i < bytes.length := hi.trans_le hlength
        rw [← List.getElem?_drop]
        refine getElem?_of_isPrefix hbytes ?_
        simp [ofBytes,hi']
      have hside : ofBytes bytes 15 ≠ 'B'.toUInt8 := by
        intro hB
        have hO := hbyte (i := 0) (by decide)
        rw [htype,Nat.add_zero] at hO
        exact hstream.apart received hO (by rw [hbyte (by decide),hB])
      rw [buildAddOrder,if_neg (by decide)] at hbuild
      obtain ⟨stock,hstock,hbuild⟩ := Option.bind_eq_some_iff.mp hbuild
      obtain ⟨_,rfl⟩ := Prod.mk.inj (Option.some.inj hbuild)
      refine noBid_datagram ?_ (length_of_stockField hstock) _
      rw [addOrder,hmsg]
      exact hside
    · obtain rfl := Option.some.inj h
      exact .inl rfl

end TickToTrade
