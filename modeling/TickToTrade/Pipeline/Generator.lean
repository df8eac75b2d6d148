import TickToTrade.Itch.Format
import TickToTrade.OrderBook.Budget
import TickToTrade.Pipeline.Dispatch

/-! The mock market data of the pipeline benchmarks. The generator keeps its own list of active
orders so that every execution, cancel and delete names an order that exists; the book that consumes
the messages has to end up with exactly these orders. -/
namespace TickToTrade.Generator
open LimitOrderBook Itch Bytes

structure ActiveOrder where
  id : UInt64
  remainingShares : UInt32
  deriving DecidableEq, Repr

structure State where
  activeOrders : List ActiveOrder
  nextId : UInt64

def init : State := ⟨[],1⟩

/-- What one iteration takes from outside: the number drawn, and what the stack holds where the
message struct is not assigned. -/
structure Draw where
  action : Fin 100
  timestamp : BitVec 48
  stock : List.Vector UInt8 8

def header (i : ℕ) (draw : Draw) (id : UInt64) : Header := ⟨1,UInt16.ofNat i,draw.timestamp,id⟩

/-- The shares of an execution or a partial cancel: ten, or what is left. -/
def ActiveOrder.taken (ao : ActiveOrder) : UInt32 := if 10 < ao.remainingShares then 10 else ao.remainingShares

/-- The order after its shares are taken, if some are left. -/
def ActiveOrder.rest (ao : ActiveOrder) : Option ActiveOrder :=
  if ao.remainingShares - ao.taken = 0 then none else some { ao with remainingShares := ao.remainingShares - ao.taken }

/-- An order without shares is erased, another one is changed in place. -/
def putBack (activeOrders : List ActiveOrder) (idx : ℕ) : Option ActiveOrder → List ActiveOrder
  | none => activeOrders.eraseIdx idx
  | some ao => activeOrders.set idx ao

/-- One iteration of `generate_mock_itch_data`. The two benchmarks differ in the shares of the
actions: below `executeBelow` an execution, below `cancelBelow` a partial cancel. -/
def iterate (executeBelow cancelBelow : ℕ) (i : ℕ) (s : State) (draw : Draw) : Message × State :=
  if h : draw.action.val < 50 ∨ s.activeOrders = [] then
    (.addOrder (header i draw s.nextId) (if i % 2 = 0 then 'B'.toUInt8 else 'S'.toUInt8) 100 draw.stock
        (UInt32.ofNat (15000 + i % 100)),
      ⟨s.activeOrders ++ [⟨s.nextId,100⟩],s.nextId + 1⟩)
  else
    let idx := i % s.activeOrders.length
    let ao := s.activeOrders.get ⟨idx,Nat.mod_lt i (List.length_pos_iff.mpr (not_or.mp h).2)⟩
    if draw.action.val < executeBelow then
      (.orderExecuted (header i draw ao.id) ao.taken (UInt64.ofNat i),
        { s with activeOrders := putBack s.activeOrders idx ao.rest })
    else if draw.action.val < cancelBelow then
      (.orderCancel (header i draw ao.id) ao.taken,{ s with activeOrders := putBack s.activeOrders idx ao.rest })
    else (.orderDelete (header i draw ao.id),{ s with activeOrders := s.activeOrders.eraseIdx idx })

/-- The loop from iteration `i` on. -/
def generate (executeBelow cancelBelow : ℕ) : ℕ → State → List Draw → List Message × State
  | _, s, [] => ([],s)
  | i, s, draw :: draws =>
    let (message,s) := iterate executeBelow cancelBelow i s draw
    let (messages,s) := generate executeBelow cancelBelow (i + 1) s draws
    (message :: messages,s)

/-- The data of the ITCH-to-LOB pipeline: half adds, 20% executions, 20% cancels, 10% deletes. -/
def generateItchToLob : List Draw → List Message × State := generate 70 90 0 init

/-- The data of the tick-to-trade pipeline: half adds and half deletes. -/
def generateTickToTrade : List Draw → List Message × State := generate 50 50 0 init

/-- The producer's loop: one message object is used for all buffers. -/
def parsed (parsedMsg : InternalMessage) : List (List UInt8) → List InternalMessage
  | [] => []
  | buffer :: buffers =>
    let (accepted,parsedMsg) := parse (ofBytes buffer) buffer.length parsedMsg
    if accepted then parsedMsg :: parsed parsedMsg buffers else parsed parsedMsg buffers

/-- Everything one iteration can do. -/
inductive Emits (s : State) : Message → State → Prop
  | added (h : Header) (buySellIndicator : UInt8) (stock : List.Vector UInt8 8) (price : UInt32)
      (new : h.orderRefNumber = s.nextId) (inRange : price.toNat < 15100) :
      Emits s (.addOrder h buySellIndicator 100 stock price) ⟨s.activeOrders ++ [⟨s.nextId,100⟩],s.nextId + 1⟩
  | executed (h : Header) (matchNumber : UInt64) (before after : List ActiveOrder) (ao : ActiveOrder)
      (known : h.orderRefNumber = ao.id) (active : s.activeOrders = before ++ ao :: after) :
      Emits s (.orderExecuted h ao.taken matchNumber) { s with activeOrders := before ++ ao.rest.toList ++ after }
  | canceled (h : Header) (before after : List ActiveOrder) (ao : ActiveOrder)
      (known : h.orderRefNumber = ao.id) (active : s.activeOrders = before ++ ao :: after) :
      Emits s (.orderCancel h ao.taken) { s with activeOrders := before ++ ao.rest.toList ++ after }
  | deleted (h : Header) (before after : List ActiveOrder) (ao : ActiveOrder)
      (known : h.orderRefNumber = ao.id) (active : s.activeOrders = before ++ ao :: after) :
      Emits s (.orderDelete h) { s with activeOrders := before ++ after }

lemma putBack_append (before after : List ActiveOrder) (ao : ActiveOrder) (rest : Option ActiveOrder) :
    putBack (before ++ ao :: after) before.length rest = before ++ rest.toList ++ after := by
  cases rest with
  | none => simp [putBack,List.eraseIdx_append_of_length_le]
  | some ao' => simp [putBack]

lemma iterate_emits (executeBelow cancelBelow i : ℕ) (s : State) (draw : Draw) :
    Emits s (iterate executeBelow cancelBelow i s draw).1 (iterate executeBelow cancelBelow i s draw).2 := by
  unfold iterate
  split
  · refine .added _ _ _ _ rfl ?_
    have hmod := Nat.mod_lt i (by decide : 0 < 100)
    rw [UInt32.toNat_ofNat_of_lt' (by norm_num [UInt32.size]; omega)]
    omega
  · rename_i h
    have hidx := Nat.mod_lt i (List.length_pos_iff.mpr (not_or.mp h).2)
    -- the list around the order that is picked
    obtain ⟨before,after,hactive,hlength⟩ : ∃ before after, s.activeOrders = before ++
        s.activeOrders.get ⟨i % s.activeOrders.length,hidx⟩ :: after ∧ before.length = i % s.activeOrders.length := by
      refine ⟨s.activeOrders.take (i % s.activeOrders.length),s.activeOrders.drop (i % s.activeOrders.length + 1),?_,?_⟩
      · simp
      · rw [List.length_take]
        omega
    dsimp only
    generalize s.activeOrders.get ⟨i % s.activeOrders.length,hidx⟩ = ao at hactive
    have hput : ∀ rest, putBack s.activeOrders (i % s.activeOrders.length) rest = before ++ rest.toList ++ after := by
      intro rest
      rw [← hlength,hactive,putBack_append]
    split
    · rw [hput]
      exact .executed _ _ before after ao rfl hactive
    · split
      · rw [hput]
        exact .canceled _ before after ao rfl hactive
      · have herase := hput none
        rw [putBack,Option.toList_none,List.append_nil] at herase
        rw [herase]
        exact .deleted _ before after ao rfl hactive

variable {s s' : State} {r : ReferenceBook} {message : Message} {i : ℕ} {lob : LimitOrderBook} {price : UInt64}

/-- The generator's list against a reference book after `i` iterations. -/
structure Mirrors (i : ℕ) (s : State) (r : ReferenceBook) : Prop where
  nodup : (s.activeOrders.map ActiveOrder.id).Nodup
  orders : ∀ k q, (∃ t, r.orders.lookup k = some t ∧ t.quantity = q) ↔
    ∃ ao ∈ s.activeOrders, ao.id = k ∧ ao.remainingShares.toUInt64 = q
  left : ∀ ao ∈ s.activeOrders, 0 < ao.remainingShares
  fresh : ∀ ao ∈ s.activeOrders, ao.id.toNat < s.nextId.toNat
  nextId : s.nextId.toNat ≤ i + 1
  few : s.activeOrders.length ≤ i

lemma mirrors_init (maxOrders maxPrice : ℕ) : Mirrors 0 init (ReferenceBook.init maxOrders maxPrice) where
  nodup := List.nodup_nil
  orders k q := by simp [init,ReferenceBook.init]
  left := by simp [init]
  fresh := by simp [init]
  nextId := Nat.le_refl _
  few := Nat.le_refl _

namespace Mirrors
variable (h : Mirrors i s r)
include h

lemma mem_orders_iff (k : UInt64) : k ∈ r.orders ↔ ∃ ao ∈ s.activeOrders, ao.id = k := by
  rw [← Finmap.lookup_isSome,Option.isSome_iff_exists]
  constructor
  · rintro ⟨t,ht⟩
    obtain ⟨ao,hao,hid,_⟩ := (h.orders k t.quantity).mp ⟨t,ht,rfl⟩
    exact ⟨ao,hao,hid⟩
  · rintro ⟨ao,hao,hid⟩
    obtain ⟨t,ht,_⟩ := (h.orders k _).mpr ⟨ao,hao,hid,rfl⟩
    exact ⟨t,ht⟩

lemma card_keys : r.orders.keys.card = s.activeOrders.length := by
  have hkeys : r.orders.keys = (s.activeOrders.map ActiveOrder.id).toFinset := by
    ext k
    rw [Finmap.mem_keys,h.mem_orders_iff,List.mem_toFinset,List.mem_map]
  rw [hkeys,List.toFinset_card_of_nodup h.nodup,List.length_map]

/-- The order that an entry of the list stands for. -/
lemma lookup_of_mem {ao : ActiveOrder} (hao : ao ∈ s.activeOrders) :
    ∃ t, r.orders.lookup ao.id = some t ∧ t.quantity = ao.remainingShares.toUInt64 :=
  (h.orders ao.id _).mpr ⟨ao,hao,rfl,rfl⟩

lemma id_ne {before after : List ActiveOrder} {ao : ActiveOrder} (hactive : s.activeOrders = before ++ ao :: after) :
    ∀ ao' ∈ before ++ after, ao'.id ≠ ao.id := by
  have hnodup := h.nodup
  rw [hactive,List.map_append,List.map_cons,List.nodup_middle,List.nodup_cons,← List.map_append] at hnodup
  intro ao' hao' hid
  exact hnodup.1 (hid ▸ List.mem_map_of_mem hao')

/-- Replacing one entry by what is left of it, in the list and in the book. -/
lemma replaced {before after : List ActiveOrder} {ao : ActiveOrder} {rest : Option ActiveOrder} {r' : ReferenceBook}
    (hactive : s.activeOrders = before ++ ao :: after) (hrest : ∀ ao' ∈ rest, ao'.id = ao.id ∧ 0 < ao'.remainingShares)
    (hself : ∀ q, (∃ t, r'.orders.lookup ao.id = some t ∧ t.quantity = q) ↔
      ∃ ao' ∈ rest, ao'.remainingShares.toUInt64 = q)
    (hothers : ∀ k, k ≠ ao.id → r'.orders.lookup k = r.orders.lookup k) :
    Mirrors (i + 1) { s with activeOrders := before ++ rest.toList ++ after } r' := by
  have hne := h.id_ne hactive
  have hmem : ∀ ao', ao' ∈ before ++ rest.toList ++ after ↔ ao' ∈ before ++ after ∨ ao' ∈ rest := by
    intro ao'
    simp only [List.mem_append,Option.mem_toList]
    tauto
  have hkept : ∀ ao' ∈ before ++ after, ao' ∈ s.activeOrders := by
    intro ao' hao'
    rw [hactive]
    simp only [List.mem_append,List.mem_cons] at hao' ⊢
    tauto
  have hao : ao ∈ s.activeOrders := by simp [hactive]
  refine ⟨?_,fun k q => ?_,fun ao' hao' => ?_,fun ao' hao' => ?_,h.nextId.trans (Nat.le_succ _),?_⟩
  · have hnodup := h.nodup
    rw [hactive] at hnodup
    cases rest with
    | none => simpa using hnodup.sublist (((List.sublist_cons_self ao after).append_left before).map _)
    | some ao' => simpa [(hrest ao' rfl).1] using hnodup
  · by_cases hk : k = ao.id
    · subst hk
      rw [hself]
      constructor
      · rintro ⟨ao',hao',hq⟩
        exact ⟨ao',(hmem ao').mpr (.inr hao'),(hrest ao' hao').1,hq⟩
      · rintro ⟨ao',hao',hid,hq⟩
        rcases (hmem ao').mp hao' with hao' | hao'
        · exact absurd hid (hne ao' hao')
        · exact ⟨ao',hao',hq⟩
    · rw [hothers k hk,h.orders k q]
      constructor
      · rintro ⟨ao',hao',hid,hq⟩
        refine ⟨ao',(hmem ao').mpr (.inl ?_),hid,hq⟩
        rw [hactive] at hao'
        simp only [List.mem_append,List.mem_cons] at hao' ⊢
        rcases hao' with hao' | rfl | hao'
        · exact .inl hao'
        · exact absurd hid.symm hk
        · exact .inr hao'
      · rintro ⟨ao',hao',hid,hq⟩
        rcases (hmem ao').mp hao' with hao' | hao'
        · exact ⟨ao',hkept ao' hao',hid,hq⟩
        · exact absurd (hid.symm.trans (hrest ao' hao').1) hk
  · rcases (hmem ao').mp hao' with hao' | hao'
    · exact h.left ao' (hkept ao' hao')
    · exact (hrest ao' hao').2
  · rcases (hmem ao').mp hao' with hao' | hao'
    · exact h.fresh ao' (hkept ao' hao')
    · rw [(hrest ao' hao').1]
      exact h.fresh ao hao
  · have hfew := h.few
    rw [hactive] at hfew
    cases rest <;> simp at hfew ⊢ <;> omega

end Mirrors

section Taken
variable (ao : ActiveOrder)

lemma ActiveOrder.toNat_taken : ao.taken.toNat = min 10 ao.remainingShares.toNat := by
  unfold ActiveOrder.taken
  split
  · rename_i h
    rw [UInt32.lt_iff_toNat_lt] at h
    change 10 < ao.remainingShares.toNat at h
    change 10 = _
    omega
  · rename_i h
    rw [UInt32.lt_iff_toNat_lt] at h
    change ¬ 10 < ao.remainingShares.toNat at h
    omega

lemma ActiveOrder.taken_le : ao.taken ≤ ao.remainingShares := by
  have htaken := ao.toNat_taken
  rw [UInt32.le_iff_toNat_le]
  omega

lemma ActiveOrder.toNat_sub_taken : (ao.remainingShares - ao.taken).toNat =
    ao.remainingShares.toNat - ao.taken.toNat := UInt32.toNat_sub_of_le _ _ ao.taken_le

/-- The book's reduction leaves of the order what the generator leaves of its entry. -/
lemma ActiveOrder.reduced_iff {t : Terms} (ht : t.quantity = ao.remainingShares.toUInt64) (q : UInt64) :
    (∃ t', t.reduced ao.taken.toUInt64 = some t' ∧ t'.quantity = q) ↔
      ∃ ao' ∈ ao.rest, ao'.remainingShares.toUInt64 = q := by
  have hsub := ao.toNat_sub_taken
  have htaken := ao.toNat_taken
  have hquantity : t.quantity.toNat = ao.remainingShares.toNat := by simp [ht]
  unfold ActiveOrder.rest
  split
  · rename_i hzero
    have hnone : t.reduced ao.taken.toUInt64 = none := by
      rw [Terms.reduced_eq_none_iff,UInt64.le_iff_toNat_le,hquantity,UInt32.toNat_toUInt64]
      have hleft := congrArg UInt32.toNat hzero
      rw [hsub,UInt32.toNat_zero] at hleft
      omega
    simp [hnone]
  · rename_i hleft
    have hpos : ao.remainingShares.toNat - ao.taken.toNat ≠ 0 := by
      intro hzero
      apply hleft
      apply UInt32.toNat_inj.mp
      rw [hsub,hzero,UInt32.toNat_zero]
    constructor
    · rintro ⟨t',ht',rfl⟩
      obtain ⟨_,_,_,hq⟩ := Terms.reduced_eq_some_iff.mp ht'
      refine ⟨_,rfl,?_⟩
      apply UInt64.toNat_inj.mp
      simp only [UInt32.toNat_toUInt64,hsub] at hq ⊢
      omega
    · rintro ⟨ao',hao',rfl⟩
      obtain rfl := Option.some.inj hao'
      refine ⟨{ t with quantity := (ao.remainingShares - ao.taken).toUInt64 },?_,rfl⟩
      rw [Terms.reduced_eq_some_iff]
      refine ⟨?_,rfl,rfl,?_⟩
      · rw [UInt32.toNat_toUInt64]
        omega
      · rw [UInt32.toNat_toUInt64,UInt32.toNat_toUInt64]
        omega

lemma ActiveOrder.mem_rest {ao' : ActiveOrder} (h : ao' ∈ ao.rest) : ao'.id = ao.id ∧ 0 < ao'.remainingShares := by
  unfold ActiveOrder.rest at h
  split at h
  · simp at h
  · rename_i hleft
    obtain rfl := Option.some.inj h
    refine ⟨rfl,?_⟩
    rw [UInt32.lt_iff_toNat_lt,UInt32.toNat_zero]
    exact Nat.pos_of_ne_zero fun hzero => hleft (UInt32.toNat_inj.mp hzero)

end Taken

/-- The book takes the message as it is meant: an add is accepted, and any other message names a
live order and takes no more than there is. -/
def Takes (lob : LimitOrderBook) (msg : InternalMessage) : Prop :=
  (msg.type = 'A'.toUInt8 ∧ (lob.add msg.id msg.side msg.price msg.quantity).map Prod.fst = some true) ∨
  (msg.type = 'D'.toUInt8 ∧ ∃ x, lob.getOrder msg.id = some (some x)) ∨
  (msg.Reduces ∧ 0 < msg.quantity ∧
    ∃ x, lob.getOrder msg.id = some (some x) ∧ msg.quantity ≤ (lob.orderPool x).quantity)

namespace Mirrors
variable (h : Mirrors i s r)
include h

/-- A reduction by what is taken of one entry. -/
lemma reduced {before after : List ActiveOrder} {ao : ActiveOrder} {msg : InternalMessage}
    (hactive : s.activeOrders = before ++ ao :: after) (hreduces : msg.Reduces) (hid : msg.id = ao.id)
    (hquantity : msg.quantity = ao.taken.toUInt64) :
    Mirrors (i + 1) { s with activeOrders := before ++ ao.rest.toList ++ after } (r.apply msg) := by
  have hmem : ao ∈ s.activeOrders := by simp [hactive]
  obtain ⟨t,ht,hq⟩ := h.lookup_of_mem hmem
  refine h.replaced hactive (fun ao' hao' => ao.mem_rest hao') (fun q => ?_) fun k hk => ?_
  · rw [r.lookup_apply_of_reduces hreduces,if_pos hid.symm,ht,Option.bind_some,hquantity]
    exact ao.reduced_iff hq q
  · rw [r.lookup_apply_of_reduces hreduces,if_neg (by rwa [hid])]

lemma not_refuses (hprice : price.toNat < r.maxPrice) (hroom : i < r.maxOrders) : ¬ r.Refuses s.nextId price := by
  rintro (hrange | hlive | hfull)
  · omega
  · obtain ⟨ao,hao,hid⟩ := (h.mem_orders_iff s.nextId).mp hlive
    have hlt := h.fresh ao hao
    rw [hid] at hlt
    omega
  · rw [h.card_keys] at hfull
    have hfew := h.few
    omega

lemma added (hprice : price.toNat < r.maxPrice) (hroom : i < r.maxOrders) (hids : i + 2 < 2 ^ 64) (side : Side) :
    Mirrors (i + 1) ⟨s.activeOrders ++ [⟨s.nextId,100⟩],s.nextId + 1⟩ (r.add s.nextId side price 100).2 := by
  have hnew := h.not_refuses hprice hroom
  have hnext : (s.nextId + 1).toNat = s.nextId.toNat + 1 := by
    have hle := h.nextId
    rw [UInt64.toNat_add,UInt64.toNat_one,Nat.mod_eq_of_lt (by omega)]
  have hne : ∀ ao ∈ s.activeOrders, ao.id ≠ s.nextId := by
    intro ao hao hid
    have hlt := h.fresh ao hao
    rw [hid] at hlt
    omega
  refine ⟨?_,fun k q => ?_,fun ao hao => ?_,fun ao hao => ?_,?_,?_⟩
  · rw [List.map_append,List.map_singleton]
    refine List.Nodup.append h.nodup (List.nodup_singleton _) ?_
    rw [List.disjoint_singleton]
    intro hmem
    obtain ⟨ao,hao,hid⟩ := List.mem_map.mp hmem
    exact hne ao hao hid
  · rw [r.lookup_add s.nextId k hnew]
    by_cases hk : k = s.nextId
    · subst hk
      simp only [if_true,List.mem_append,List.mem_singleton]
      constructor
      · rintro ⟨t,ht,rfl⟩
        obtain rfl := Option.some.inj ht
        exact ⟨⟨s.nextId,100⟩,.inr rfl,rfl,rfl⟩
      · rintro ⟨ao,hao | rfl,hid,rfl⟩
        · exact absurd hid (hne ao hao)
        · exact ⟨_,rfl,rfl⟩
    · rw [if_neg hk,h.orders k q]
      simp only [List.mem_append,List.mem_singleton]
      constructor
      · rintro ⟨ao,hao,hid,hq⟩
        exact ⟨ao,.inl hao,hid,hq⟩
      · rintro ⟨ao,hao | rfl,hid,hq⟩
        · exact ⟨ao,hao,hid,hq⟩
        · exact absurd hid.symm hk
  · rcases List.mem_append.mp hao with hao | hao
    · exact h.left ao hao
    · obtain rfl := List.mem_singleton.mp hao
      exact (by decide : (0 : UInt32) < 100)
  · change ao.id.toNat < (s.nextId + 1).toNat
    rw [hnext]
    rcases List.mem_append.mp hao with hao | hao
    · exact Nat.lt_succ_of_lt (h.fresh ao hao)
    · obtain rfl := List.mem_singleton.mp hao
      exact Nat.lt_succ_self _
  · change (s.nextId + 1).toNat ≤ _
    rw [hnext]
    exact Nat.succ_le_succ h.nextId
  · rw [List.length_append,List.length_singleton]
    exact Nat.succ_le_succ h.few

/-- One iteration of the generator is matched by the reference book. -/
theorem emits (hemits : Emits s message s') (hprice : 15100 ≤ r.maxPrice) (hroom : i < r.maxOrders)
    (hids : i + 2 < 2 ^ 64) (prior : InternalMessage) : Mirrors (i + 1) s' (r.apply (message.internal prior)) := by
  cases hemits with
  | added hd indicator stock price hnew hrange =>
    have hadds : ((Message.addOrder hd indicator 100 stock price).internal prior).type = 'A'.toUInt8 := rfl
    have happly : r.apply ((Message.addOrder hd indicator 100 stock price).internal prior) =
        (r.add s.nextId (if indicator = 'B'.toUInt8 then .buy else .sell) price.toUInt64 100).2 := by
      rw [ReferenceBook.apply,if_pos hadds,← hnew]
      rfl
    rw [happly]
    exact h.added (by rw [UInt32.toNat_toUInt64]; omega) hroom hids _
  | executed hd n before after ao hknown hactive => exact h.reduced hactive (.inl rfl) hknown rfl
  | canceled hd before after ao hknown hactive => exact h.reduced hactive (.inr (.inr rfl)) hknown rfl
  | deleted hd before after ao hknown hactive =>
    have hdeletes : ((Message.orderDelete hd).internal prior).type = 'D'.toUInt8 := rfl
    have hid : ((Message.orderDelete hd).internal prior).id = ao.id := hknown
    have hnext : Mirrors (i + 1) { s with activeOrders := before ++ Option.toList none ++ after }
        (r.apply ((Message.orderDelete hd).internal prior)) :=
      h.replaced hactive (by simp) (fun q => ?_) fun k hk => ?_
    · simpa using hnext
    · rw [r.lookup_apply_of_deletes hdeletes,if_pos hid.symm]
      simp
    · rw [r.lookup_apply_of_deletes hdeletes,if_neg (by rwa [hid])]

end Mirrors

variable {maxOrders maxPrice : ℕ}

/-- The book after `i` messages: it holds the active orders, and each message has used up at most
one entry of its table. -/
structure Follows (maxOrders maxPrice i : ℕ) (s : State) (lob : LimitOrderBook) : Prop where
  mirrors : ∃ r, Refines lob r ∧ Mirrors i s r ∧ r.maxOrders = maxOrders ∧ r.maxPrice = maxPrice
  unused : 2 * maxOrders ≤ lob.nullSlots + i

lemma follows_init (hmax : 1 ≤ maxOrders) (maxPrice : ℕ) :
    Follows maxOrders maxPrice 0 init (LimitOrderBook.init maxOrders maxPrice) where
  mirrors := ⟨_,refines_init hmax maxPrice,mirrors_init maxOrders maxPrice,rfl,rfl⟩
  unused := (nullSlots_init maxOrders maxPrice).ge

/-- The order that an active entry stands for. -/
lemma Mirrors.getOrder_of_mem (h : Mirrors i s r) (hR : Refines lob r) {ao : ActiveOrder}
    (hao : ao ∈ s.activeOrders) :
    ∃ x, lob.getOrder ao.id = some (some x) ∧ (lob.orderPool x).quantity = ao.remainingShares.toUInt64 := by
  obtain ⟨x,hx⟩ := (hR.agrees.found_iff ao.id).mpr ((h.mem_orders_iff ao.id).mpr ⟨ao,hao,rfl⟩)
  obtain ⟨t,ht,hq⟩ := h.lookup_of_mem hao
  have hterms := Option.some.inj ((hR.lookup_of_getOrder hx).symm.trans ht)
  exact ⟨x,hx,by rw [← hq,← hterms]; rfl⟩

/-- A reduction of an active order by what is taken of it. -/
lemma Mirrors.takes_reduced (h : Mirrors i s r) (hR : Refines lob r) {before after : List ActiveOrder}
    {ao : ActiveOrder} {msg : InternalMessage} (hactive : s.activeOrders = before ++ ao :: after)
    (hreduces : msg.Reduces) (hid : msg.id = ao.id) (hquantity : msg.quantity = ao.taken.toUInt64) :
    Takes lob msg := by
  have hao : ao ∈ s.activeOrders := by simp [hactive]
  obtain ⟨x,hx,hq⟩ := h.getOrder_of_mem hR hao
  have hleft := h.left ao hao
  have htaken := ao.toNat_taken
  rw [UInt32.lt_iff_toNat_lt,UInt32.toNat_zero] at hleft
  refine .inr (.inr ⟨hreduces,?_,x,by rw [hid,hx],?_⟩)
  · rw [hquantity,UInt64.lt_iff_toNat_lt,UInt64.toNat_zero,UInt32.toNat_toUInt64]
    omega
  · rw [hquantity,hq,UInt64.le_iff_toNat_le,UInt32.toNat_toUInt64,UInt32.toNat_toUInt64]
    omega

lemma Mirrors.takes (h : Mirrors i s r) (hR : Refines lob r) (hnull : lob.HasNull) (hemits : Emits s message s')
    (hprice : 15100 ≤ r.maxPrice) (hroom : i < r.maxOrders) (prior : InternalMessage) :
    Takes lob (message.internal prior) := by
  cases hemits with
  | added hd indicator stock price hnew hrange =>
    refine .inl ⟨rfl,?_⟩
    change (lob.call (.add hd.orderRefNumber (if indicator = 'B'.toUInt8 then .buy else .sell) price.toUInt64
      100)).map Prod.fst = some true
    have hinv := hR
    obtain ⟨free,queue,hinv,_⟩ := hinv
    have hreturns := (hinv.call_returns_iff (.add hd.orderRefNumber
      (if indicator = 'B'.toUInt8 then .buy else .sell) price.toUInt64 100)).mpr (.inr (.inr hnull))
    obtain ⟨⟨a,lob'⟩,hcall⟩ := Option.isSome_iff_exists.mp hreturns
    have hanswer := (hR.call hcall).1
    have hnot : ¬ r.Refuses s.nextId price.toUInt64 :=
      h.not_refuses (by rw [UInt32.toNat_toUInt64]; omega) hroom
    unfold ReferenceBook.Refuses at hnot
    rw [ReferenceBook.call,ReferenceBook.add,hnew,if_neg hnot] at hanswer
    rw [hcall,Option.map_some,← hanswer]
  | executed hd n before after ao hknown hactive => exact h.takes_reduced hR hactive (.inl rfl) hknown rfl
  | canceled hd before after ao hknown hactive => exact h.takes_reduced hR hactive (.inr (.inr rfl)) hknown rfl
  | deleted hd before after ao hknown hactive =>
    have hmem : ao ∈ s.activeOrders := by simp [hactive]
    obtain ⟨x,hx,_⟩ := h.getOrder_of_mem hR hmem
    refine .inr (.inl ⟨rfl,x,?_⟩)
    rw [← hx,← hknown]
    rfl

/-- One message: the book takes it and keeps up with the generator. -/
theorem Follows.step (h : Follows maxOrders maxPrice i s lob) (hemits : Emits s message s')
    (hprice : 15100 ≤ maxPrice) (hroom : i < maxOrders) (hids : i + 2 < 2 ^ 64) (prior : InternalMessage) :
    Takes lob (message.internal prior) ∧ ∃ lob', pipelineDispatch lob (message.internal prior) = some lob' ∧
      Follows maxOrders maxPrice (i + 1) s' lob' := by
  obtain ⟨⟨r,hR,hmirrors,rfl,rfl⟩,hunused⟩ := h
  have hnull : lob.HasNull := lob.hasNull_iff_nullSlots_pos.mpr (by omega)
  have ⟨free,queue,hinv,_⟩ := hR
  obtain ⟨lob',hdispatch⟩ := Option.isSome_iff_exists.mp
    (pipelineDispatch_isSome hinv hnull (message.internal prior))
  have hdimensions := r.apply_dimensions (message.internal prior)
  refine ⟨hmirrors.takes hR hnull hemits hprice hroom prior,lob',hdispatch,
    ⟨_,hR.apply hdispatch,hmirrors.emits hemits hprice hroom hids prior,hdimensions⟩,?_⟩
  rcases pipelineDispatch_call hdispatch with rfl | ⟨c,a,hcall⟩
  · omega
  · have hused := (hinv.nullSlots_call hcall).2
    split at hused <;> omega

/-- The stream of the generator from iteration `i` on, through the parser and the book. -/
theorem Follows.generate (executeBelow cancelBelow : ℕ) (draws : List Draw) (h : Follows maxOrders maxPrice i s lob)
    (hprice : 15100 ≤ maxPrice) (hroom : i + draws.length ≤ maxOrders) (hids : i + draws.length + 1 < 2 ^ 64)
    (parsedMsg : InternalMessage) :
    let (messages,s') := Generator.generate executeBelow cancelBelow i s draws
    let msgs := parsed parsedMsg (messages.map Message.encode)
    msgs.length = draws.length ∧
    (∃ lob', consume pipelineDispatch lob msgs = some lob' ∧ Follows maxOrders maxPrice (i + draws.length) s' lob') ∧
    ∀ pre msg post, msgs = pre ++ msg :: post →
      ∃ lob₁, consume pipelineDispatch lob pre = some lob₁ ∧ Takes lob₁ msg := by
  induction draws generalizing i s lob parsedMsg with
  | nil => exact ⟨rfl,⟨lob,rfl,h⟩,by simp [parsed]⟩
  | cons draw draws ih =>
    rw [List.length_cons] at hroom hids
    have hemits := iterate_emits executeBelow cancelBelow i s draw
    simp only [Generator.generate]
    generalize iterate executeBelow cancelBelow i s draw = step at hemits
    obtain ⟨message,s₁⟩ := step
    obtain ⟨htakes,lob₁,hdispatch,hnext⟩ := h.step hemits hprice (by omega) (by omega) parsedMsg
    have hrest := ih hnext (by omega) (by omega) (message.internal parsedMsg)
    dsimp only at hrest ⊢
    generalize Generator.generate executeBelow cancelBelow (i + 1) s₁ draws = rest at hrest ⊢
    obtain ⟨messages,s₂⟩ := rest
    obtain ⟨hlength,⟨lob₂,hconsume,hfollows⟩,hall⟩ := hrest
    have hparse := parse_encode message [] parsedMsg
    rw [List.append_nil] at hparse
    have hparsed : parsed parsedMsg ((message :: messages).map Message.encode) =
        message.internal parsedMsg :: parsed (message.internal parsedMsg) (messages.map Message.encode) := by
      rw [List.map_cons,parsed,hparse]
      rfl
    rw [hparsed]
    refine ⟨by rw [List.length_cons,List.length_cons,hlength],⟨lob₂,?_,?_⟩,?_⟩
    · rw [consume,List.foldlM_cons,hdispatch]
      exact hconsume
    · rw [List.length_cons,show i + (draws.length + 1) = i + 1 + draws.length by omega]
      exact hfollows
    · intro pre msg post hpre
      cases pre with
      | nil =>
        obtain ⟨rfl,_⟩ := List.cons.inj hpre
        exact ⟨lob,rfl,htakes⟩
      | cons first pre =>
        obtain ⟨rfl,htail⟩ := List.cons.inj hpre
        obtain ⟨lob₃,hlob₃,htakes₃⟩ := hall pre msg post htail
        exact ⟨lob₃,by rw [consume,List.foldlM_cons,hdispatch]; exact hlob₃,htakes₃⟩

/-- Whatever numbers are drawn, every message of the generator parses, the book takes each one as it
is meant, and after all of them it holds exactly the active orders with the shares they have left. -/
theorem generated_stream_valid (executeBelow cancelBelow maxOrders maxPrice : ℕ) (hmax : 1 ≤ maxOrders)
    (hprice : 15100 ≤ maxPrice) (draws : List Draw) (hroom : draws.length ≤ maxOrders)
    (hids : draws.length + 1 < 2 ^ 64) (parsedMsg : InternalMessage) :
    let (messages,s) := generate executeBelow cancelBelow 0 init draws
    let msgs := parsed parsedMsg (messages.map Message.encode)
    msgs.length = draws.length ∧
    (∀ pre msg post, msgs = pre ++ msg :: post →
      ∃ lob, consume pipelineDispatch (LimitOrderBook.init maxOrders maxPrice) pre = some lob ∧ Takes lob msg) ∧
    ∃ lob, consume pipelineDispatch (LimitOrderBook.init maxOrders maxPrice) msgs = some lob ∧
      ∀ id q, (∃ x, lob.getOrder id = some (some x) ∧ (lob.orderPool x).quantity = q) ↔
        ∃ ao ∈ s.activeOrders, ao.id = id ∧ ao.remainingShares.toUInt64 = q := by
  have hstream := (follows_init hmax maxPrice).generate executeBelow cancelBelow draws hprice (by omega) (by omega)
    parsedMsg
  generalize generate executeBelow cancelBelow 0 init draws = outcome at hstream ⊢
  obtain ⟨messages,s⟩ := outcome
  obtain ⟨hlength,⟨lob,hconsume,⟨r,hR,hmirrors,_⟩,_⟩,hall⟩ := hstream
  refine ⟨hlength,hall,lob,hconsume,fun id q => ?_⟩
  rw [← hmirrors.orders]
  constructor
  · rintro ⟨x,hx,hq⟩
    exact ⟨_,hR.lookup_of_getOrder hx,hq⟩
  · rintro ⟨t,ht,rfl⟩
    obtain ⟨x,hx⟩ := (hR.agrees.found_iff id).mpr (Finmap.mem_iff.mpr ⟨t,ht⟩)
    have hterms := Option.some.inj ((hR.lookup_of_getOrder hx).symm.trans ht)
    exact ⟨x,hx,by rw [← hterms]; rfl⟩

/-- An add, an execution, a partial cancel and the delete of the one order: the book ends empty. -/
theorem generated_stream_valid_one_each :
    let draws : List Draw := [0,60,80,95].map fun action => ⟨action,0,⟨List.replicate 8 0,rfl⟩⟩
    let (messages,_) := generate 70 90 0 init draws
    ∃ lob, consume pipelineDispatch (LimitOrderBook.init 4 15100)
        (parsed ⟨0,0,0,0,.buy⟩ (messages.map Message.encode)) = some lob ∧
      ∀ id x, lob.getOrder id ≠ some (some x) := by
  intro draws
  have hstream := generated_stream_valid 70 90 4 15100 (by decide) (by decide) draws (by decide) (by decide)
    ⟨0,0,0,0,.buy⟩
  obtain ⟨_,_,lob,hconsume,horders⟩ := hstream
  refine ⟨lob,hconsume,fun id x hx => ?_⟩
  obtain ⟨ao,hao,_⟩ := (horders id _).mp ⟨x,hx,rfl⟩
  have hnone : (generate 70 90 0 init draws).2.activeOrders = [] := by decide +kernel
  change ao ∈ (generate 70 90 0 init draws).2.activeOrders at hao
  rw [hnone] at hao
  contradiction

end TickToTrade.Generator
