import TickToTrade.Exchange.Emulator

/-! The emulator on a stream of orders. TCP keeps bytes, not message boundaries, while the callback
takes each `recv` for one message: it sees every order exactly once only where each `recv` returns
exactly one. -/
namespace TickToTrade.ExchangeEmulator
open Bytes Ouch Itch

/-- The callback on successive `recv` results. -/
def deliver (s : ExchangeEmulator) (segments : List (List UInt8 × Surroundings)) : Option ExchangeEmulator :=
  segments.foldlM (fun s p => s.clientCallback (.data p.1) p.2) s

/-- One datagram for each order, in order, under consecutive reference numbers. -/
def AnnouncedFrom : UInt64 → List EnterOrder → List (List UInt8) → Prop
  | _, [], [] => True
  | orderRef, o :: orders, datagram :: datagrams =>
    Announces o orderRef datagram ∧ AnnouncedFrom (orderRef + 1) orders datagrams
  | _, _, _ => False

/-- The orders of the stream are announced exactly once each. -/
def ProcessedOnce (orders : List EnterOrder) (segments : List (List UInt8 × Surroundings)) : Prop :=
  ∃ s, deliver init segments = some s ∧ AnnouncedFrom init.orderRefCounter orders s.broadcast

variable {s s' : ExchangeEmulator} {orders : List EnterOrder} {segments : List (List UInt8 × Surroundings)}

lemma AnnouncedFrom.length_eq {orderRef : UInt64} {datagrams : List (List UInt8)}
    (h : AnnouncedFrom orderRef orders datagrams) : datagrams.length = orders.length := by
  induction orders generalizing orderRef datagrams with
  | nil =>
    cases datagrams with
    | nil => rfl
    | cons d ds => exact h.elim
  | cons o orders ih =>
    cases datagrams with
    | nil => exact h.elim
    | cons d ds => rw [List.length_cons,List.length_cons,ih h.2]

lemma clientCallback_length_le {bytes : List UInt8} {around : Surroundings}
    (h : s.clientCallback (.data bytes) around = some s') :
    s'.broadcast.length ≤ s.broadcast.length + if 49 ≤ bytes.length then 1 else 0 := by
  simp only [clientCallback] at h
  split at h
  · obtain rfl := Option.some.inj h
    omega
  · rename_i ouchMsg hparse
    have hlength : 49 ≤ bytes.length := by
      by_contra hlong
      have hshort : bytes.length < packedSize enterOrderMsg := Nat.lt_of_not_le hlong
      rw [parseEnterOrder,if_pos hshort] at hparse
      simp at hparse
    rw [if_pos hlength]
    obtain ⟨⟨built,itchBuffer⟩,_,h⟩ := Option.bind_eq_some_iff.mp h
    dsimp only at h
    split at h
    · obtain rfl := Option.some.inj h
      simp
    · obtain rfl := Option.some.inj h
      simp

/-- The sizes of the `recv` results. -/
def sizes (segments : List (List UInt8 × Surroundings)) : List ℕ := segments.map fun p => p.1.length

lemma sizes_eq (segments : List (List UInt8 × Surroundings)) :
    sizes segments = (segments.map Prod.fst).map List.length := by
  rw [List.map_map]
  rfl

lemma deliver_length_le (h : deliver s segments = some s') :
    s'.broadcast.length ≤ s.broadcast.length + (sizes segments).countP (49 ≤ ·) := by
  induction segments generalizing s with
  | nil =>
    obtain rfl := Option.some.inj h
    simp
  | cons p segments ih =>
    rw [deliver,List.foldlM_cons] at h
    obtain ⟨s₁,hfirst,hrest⟩ := Option.bind_eq_some_iff.mp h
    have hstep := clientCallback_length_le hfirst
    have htail := ih hrest
    rw [sizes,List.map_cons,List.countP_cons]
    change _ ≤ _ + ((sizes segments).countP (49 ≤ ·) + _)
    simp only [decide_eq_true_eq]
    omega

lemma countP_le_sum (ns : List ℕ) : 49 * ns.countP (49 ≤ ·) ≤ ns.sum := by
  induction ns with
  | nil => simp
  | cons n ns ih =>
    rw [List.countP_cons,List.sum_cons]
    simp only [decide_eq_true_eq]
    split <;> omega

/-- A stream with as many long segments as it has messages is cut exactly at the messages. -/
lemma sizes_of_countP {ns : List ℕ} (hpos : ∀ n ∈ ns, 0 < n) (hcount : ns.sum ≤ 49 * ns.countP (49 ≤ ·)) :
    ∀ n ∈ ns, n = 49 := by
  induction ns with
  | nil => simp
  | cons n ns ih =>
    have hle := countP_le_sum ns
    have hn := hpos n List.mem_cons_self
    rw [List.countP_cons,List.sum_cons] at hcount
    simp only [decide_eq_true_eq] at hcount
    have hfirst : n = 49 := by
      split at hcount <;> omega
    have hrest : ns.sum ≤ 49 * ns.countP (49 ≤ ·) := by
      split at hcount <;> omega
    intro k hk
    rcases List.mem_cons.mp hk with rfl | hk
    · exact hfirst
    · exact ih (fun k hk => hpos k (List.mem_cons_of_mem _ hk)) hrest k hk

lemma map_length_wires (orders : List EnterOrder) :
    (orders.map EnterOrder.wire).map List.length = List.replicate orders.length 49 := by
  rw [List.map_map,← List.map_const']
  exact List.map_congr_left fun o _ => o.length_wire

lemma sum_sizes (hstream : (segments.map Prod.fst).flatten = (orders.map EnterOrder.wire).flatten) :
    (sizes segments).sum = orders.length * 49 := by
  have htotal := congrArg List.length hstream
  rwa [List.length_flatten,List.length_flatten,map_length_wires,List.sum_replicate_nat,← sizes_eq] at htotal

lemma segments_eq_wires (hstream : (segments.map Prod.fst).flatten = (orders.map EnterOrder.wire).flatten)
    (hlengths : ∀ p ∈ segments, p.1.length = 49) : segments.map Prod.fst = orders.map EnterOrder.wire := by
  have hsizes : (segments.map Prod.fst).map List.length = List.replicate segments.length 49 := by
    rw [List.map_map,← List.map_const']
    exact List.map_congr_left hlengths
  have htotal := sum_sizes hstream
  rw [sizes_eq,hsizes,List.sum_replicate_nat] at htotal
  refine List.eq_iff_flatten_eq.mpr ⟨hstream,?_⟩
  rw [hsizes,map_length_wires,Nat.eq_of_mul_eq_mul_right (by decide) htotal]

/-- One message in each `recv`: every order is announced, if each search for a NUL ends. -/
lemma deliver_wires (hwires : segments.map Prod.fst = orders.map EnterOrder.wire)
    (hnul : ∀ o ∈ orders, NulBehind o) :
    ∃ s' datagrams, deliver s segments = some s' ∧ s'.broadcast = s.broadcast ++ datagrams ∧
      AnnouncedFrom s.orderRefCounter orders datagrams := by
  induction orders generalizing s segments with
  | nil =>
    obtain rfl : segments = [] := by simpa using hwires
    exact ⟨s,[],rfl,by simp,trivial⟩
  | cons o orders ih =>
    obtain ⟨p,segments,rfl,hp,hrest⟩ := List.map_eq_cons_iff.mp hwires
    obtain ⟨datagram,hcallback,hannounces⟩ := clientCallback_wire s (hnul o List.mem_cons_self) p.2
    obtain ⟨s',datagrams,hdeliver,hbroadcast,hannounced⟩ := ih (s := { s with
      orderRefCounter := s.orderRefCounter + 1, broadcast := s.broadcast ++ [datagram] }) hrest
      fun o ho => hnul o (List.mem_cons_of_mem _ ho)
    refine ⟨s',datagram :: datagrams,?_,by simpa using hbroadcast,hannounces,hannounced⟩
    rw [deliver,List.foldlM_cons,hp,hcallback]
    exact hdeliver

lemma nulBehind_of_deliver (hwires : segments.map Prod.fst = orders.map EnterOrder.wire)
    (hdeliver : deliver s segments = some s') : ∀ o ∈ orders, NulBehind o := by
  induction orders generalizing s segments with
  | nil => simp
  | cons o orders ih =>
    obtain ⟨p,segments,rfl,hp,hrest⟩ := List.map_eq_cons_iff.mp hwires
    rw [deliver,List.foldlM_cons] at hdeliver
    obtain ⟨s₁,hfirst,htail⟩ := Option.bind_eq_some_iff.mp hdeliver
    intro o' ho'
    rcases List.mem_cons.mp ho' with rfl | ho'
    · by_contra hnul
      rw [hp,clientCallback_wire_overruns s hnul] at hfirst
      contradiction
    · exact ih hrest htail o' ho'

/-- The orders of a stream are announced exactly once each if and only if each `recv` returns
exactly one message and each message has a NUL at or behind its stock field. -/
theorem processedOnce_iff (orders : List EnterOrder) (segments : List (List UInt8 × Surroundings))
    (hstream : (segments.map Prod.fst).flatten = (orders.map EnterOrder.wire).flatten)
    (hsegments : ∀ p ∈ segments, p.1 ≠ [] ∧ p.1.length ≤ 1024) :
    ProcessedOnce orders segments ↔
      (∀ p ∈ segments, p.1.length = 49) ∧ ∀ o ∈ orders, NulBehind o := by
  constructor
  · rintro ⟨s,hdeliver,hannounced⟩
    have hcount := deliver_length_le hdeliver
    rw [hannounced.length_eq] at hcount
    have hpos : ∀ n ∈ sizes segments, 0 < n := by
      intro n hn
      obtain ⟨p,hp,rfl⟩ := List.mem_map.mp hn
      exact List.length_pos_iff.mpr (hsegments p hp).1
    have hsum : (sizes segments).sum ≤ 49 * (sizes segments).countP (49 ≤ ·) := by
      rw [sum_sizes hstream,Nat.mul_comm]
      exact Nat.mul_le_mul_left 49 (by simpa [init] using hcount)
    have hlengths : ∀ p ∈ segments, p.1.length = 49 :=
      fun p hp => sizes_of_countP hpos hsum p.1.length (List.mem_map_of_mem hp)
    exact ⟨hlengths,nulBehind_of_deliver (segments_eq_wires hstream hlengths) hdeliver⟩
  · rintro ⟨hlengths,hnul⟩
    obtain ⟨s,datagrams,hdeliver,hbroadcast,hannounced⟩ :=
      deliver_wires (s := init) (segments_eq_wires hstream hlengths) hnul
    exact ⟨s,hdeliver,by rw [hbroadcast]; exact hannounced⟩

lemma zero_notMem_defaultFirm : 0 ∉ ['T'.toUInt8,'E'.toUInt8,'S'.toUInt8,'T'.toUInt8] := by decide

/-- An order for AAPL, with the other arguments at their defaults. -/
def aaplEnterOrder (side : UInt8) (shares : UInt32) : EnterOrder where
  orderToken := some ⟨[79,49],by decide⟩
  buySell := side
  shares := shares
  stock := some ⟨[65,65,80,76],by decide⟩
  price := 15000
  firm := some ⟨_,zero_notMem_defaultFirm⟩

/-- Locals and clock of a callback in the examples. -/
def zeroed : Surroundings := ⟨⟨0,[],0,0,[],0,0,[],0,0,0,0,0,0⟩,fun _ => 0,7⟩

/-- Two orders, each received on its own. -/
theorem processedOnce_iff_one_by_one :
    ProcessedOnce [aaplEnterOrder 66 100,aaplEnterOrder 83 40]
      [((aaplEnterOrder 66 100).wire,zeroed),((aaplEnterOrder 83 40).wire,zeroed)] := by
  refine (processedOnce_iff _ _ rfl ?_).mpr ⟨?_,?_⟩
  · decide +kernel
  · decide +kernel
  · decide +kernel

/-- The same two orders received at once: the second is never looked at. -/
theorem second_order_lost :
    (∃ s, deliver init [((aaplEnterOrder 66 100).wire ++ (aaplEnterOrder 83 40).wire,zeroed)] = some s ∧
      s.broadcast.length = 1) ∧
    ¬ ProcessedOnce [aaplEnterOrder 66 100,aaplEnterOrder 83 40]
      [((aaplEnterOrder 66 100).wire ++ (aaplEnterOrder 83 40).wire,zeroed)] := by
  refine ⟨exists_of_isSome (by decide +kernel) fun s hs => ?_,?_⟩
  · have hcount : (deliver init [((aaplEnterOrder 66 100).wire ++ (aaplEnterOrder 83 40).wire,zeroed)]).map
        (fun s => s.broadcast.length) = some 1 := by decide +kernel
    rw [hs] at hcount
    exact Option.some.inj hcount
  · rintro ⟨s,hdeliver,hannounced⟩
    have hcount := deliver_length_le hdeliver
    rw [hannounced.length_eq] at hcount
    revert hcount
    decide +kernel

end TickToTrade.ExchangeEmulator
