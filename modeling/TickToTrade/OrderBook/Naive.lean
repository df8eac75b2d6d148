import TickToTrade.OrderBook.Refinement

/-! The naive book that the benchmark runs against the optimised one: a map of price levels per side,
each a list of orders, and a hash map from ids to list iterators. Both books simulate the reference
book, so they agree with each other. -/
namespace TickToTrade
open Linked Probing

abbrev NaiveSide := Side

structure NaiveOrder where
  id : UInt64
  price : UInt64
  quantity : UInt64
  side : NaiveSide
  deriving DecidableEq, Repr

/-- A node of a `std::list`. An iterator is the address of its node. -/
structure ListNode where
  address : ℕ
  order : NaiveOrder
  deriving DecidableEq, Repr

structure OrderLocation where
  side : NaiveSide
  price : UInt64
  it : ℕ
  deriving DecidableEq, Repr

/-- The maps are functions to `none` where they have no key. `nextAddress` is where the next list
node will be allocated. -/
structure NaiveOrderBook where
  bids : UInt64 → Option (List ListNode)
  asks : UInt64 → Option (List ListNode)
  orders : UInt64 → Option OrderLocation
  nextAddress : ℕ

namespace NaiveOrderBook

def init : NaiveOrderBook := ⟨fun _ => none,fun _ => none,fun _ => none,0⟩

/-- The level in `bids_` or `asks_`, by side, if the map has it. -/
def level (n : NaiveOrderBook) (side : NaiveSide) (price : UInt64) : Option (List ListNode) :=
  match side with
  | .buy => n.bids price
  | .sell => n.asks price

def setLevel (n : NaiveOrderBook) (side : NaiveSide) (price : UInt64) (l : Option (List ListNode)) :
    NaiveOrderBook :=
  match side with
  | .buy => { n with bids := Function.update n.bids price l }
  | .sell => { n with asks := Function.update n.asks price l }

/-- `bids_[price]` or `asks_[price]`: a missing level is an empty one. -/
def nodes (n : NaiveOrderBook) (side : NaiveSide) (price : UInt64) : List ListNode :=
  (n.level side price).getD []

def add (n : NaiveOrderBook) (id : UInt64) (side : NaiveSide) (price quantity : UInt64) :
    Bool × NaiveOrderBook :=
  if n.orders id ≠ none then (false,n)
  else
    let order : NaiveOrder := ⟨id,price,quantity,side⟩
    let node : ListNode := ⟨n.nextAddress,order⟩
    let n' := n.setLevel side price (some (n.nodes side price ++ [node]))
    -- `--end()` of the list just extended
    let it := ((n.nodes side price ++ [node]).getLast (by simp)).address
    (true,{ n' with
      orders := Function.update n'.orders id (some ⟨side,price,it⟩)
      nextAddress := n.nextAddress + 1 })

/-- `erase` through an iterator that is not one of the list has no defined result. -/
def cancel (n : NaiveOrderBook) (id : UInt64) : Option (Bool × NaiveOrderBook) :=
  match n.orders id with
  | none => some (false,n)
  | some loc =>
    if (n.nodes loc.side loc.price).any fun d => d.address = loc.it then
      let l := (n.nodes loc.side loc.price).eraseP fun d => d.address = loc.it
      let n' := n.setLevel loc.side loc.price (if l.isEmpty then none else some l)
      some (true,{ n' with orders := Function.update n'.orders id none })
    else none

end NaiveOrderBook

/-- The calls that both books offer. -/
inductive BenchmarkCall
  | add (id : UInt64) (side : Side) (price quantity : UInt64)
  | cancel (id : UInt64)
  deriving DecidableEq, Repr

def BenchmarkCall.bookCall : BenchmarkCall → BookCall
  | .add id side price quantity => .add id side price quantity
  | .cancel id => .cancel id

def NaiveOrderBook.call (n : NaiveOrderBook) : BenchmarkCall → Option (Bool × NaiveOrderBook)
  | .add id side price quantity => some (n.add id side price quantity)
  | .cancel id => n.cancel id

/-- Erasing the node with a key from a list of distinct keys takes out that node. -/
lemma eraseP_eq_of_nodup {α : Type*} {f : α → ℕ} {l : List α} {d : α} (hnodup : (l.map f).Nodup)
    (hd : d ∈ l) : ∃ l₁ l₂, l = l₁ ++ d :: l₂ ∧ l.eraseP (fun e => f e = f d) = l₁ ++ l₂ := by
  obtain ⟨l₁,l₂,rfl⟩ := List.append_of_mem hd
  refine ⟨l₁,l₂,rfl,?_⟩
  have hbefore : ∀ e ∈ l₁, ¬ decide (f e = f d) = true := by
    intro e he heq
    rw [List.map_append,List.map_cons] at hnodup
    have hne := (List.nodup_append.mp hnodup).2.2 (f e) (List.mem_map_of_mem he) (f d) (by simp)
    exact hne (by simpa using heq)
  rw [List.eraseP_append_right _ hbefore,List.eraseP_cons_of_pos (by simp)]

namespace NaiveOrderBook

/-- The naive book holds the reference book: its lists are the queues, and its locations are the
places of the nodes in these lists. -/
structure Holds (n : NaiveOrderBook) (r : ReferenceBook) : Prop where
  ids : ∀ s p, ((n.nodes s p).map fun d => d.order.id) = r.queue s p
  nonempty : ∀ s p, n.level s p ≠ some []
  nodup : ∀ s p, (r.queue s p).Nodup
  node : ∀ s p, ∀ d ∈ n.nodes s p,
    r.orders.lookup d.order.id = some ⟨s,p,d.order.quantity⟩ ∧
    n.orders d.order.id = some ⟨s,p,d.address⟩
  located : ∀ id loc, n.orders id = some loc →
    ∃ d ∈ n.nodes loc.side loc.price, d.order.id = id ∧ d.address = loc.it
  known : ∀ id, id ∈ r.orders ↔ n.orders id ≠ none
  addresses : ∀ s p, ((n.nodes s p).map ListNode.address).Nodup
  fresh : ∀ s p, ∀ d ∈ n.nodes s p, d.address < n.nextAddress

section Levels
variable (n : NaiveOrderBook) (side : NaiveSide) (price : UInt64) (l : Option (List ListNode))

@[simp] lemma setLevel_orders : (n.setLevel side price l).orders = n.orders := by
  cases side <;> rfl

lemma level_setLevel : (n.setLevel side price l).level = setAt n.level side price l := by
  funext s p
  cases side <;> cases s <;> by_cases hp : p = price <;> simp [level,setLevel,setAt,hp]

end Levels

variable {n n' : NaiveOrderBook} {r : ReferenceBook} {id price quantity : UInt64} {side : Side}

/-- The lists of a book whose maps have been set at one level. -/
lemma nodes_of_level {l : Option (List ListNode)} (h : n'.level = setAt n.level side price l) :
    n'.nodes = setAt n.nodes side price (l.getD []) := by
  have hmap := map_setAt (fun l : Option (List ListNode) => l.getD []) n.level side price l
  rw [← h] at hmap
  exact hmap

lemma holds_init (maxOrders maxPrice : ℕ) : Holds init (ReferenceBook.init maxOrders maxPrice) where
  ids s p := by cases s <;> rfl
  nonempty s p := by cases s <;> simp [level,init]
  nodup _ _ := List.nodup_nil
  node s p d hd := by cases s <;> simp [nodes,level,init] at hd
  located id loc h := by simp [init] at h
  known id := by simp [init,ReferenceBook.init,Finmap.notMem_empty]
  addresses s p := by cases s <;> exact List.nodup_nil
  fresh s p d hd := by cases s <;> simp [nodes,level,init] at hd

lemma Holds.ids_setAt (h : Holds n r) {l : List ListNode} (hnodes : n'.nodes = setAt n.nodes side price l)
    (s : Side) (p : UInt64) :
    ((n'.nodes s p).map fun d => d.order.id) = setAt r.queue side price (l.map fun d => d.order.id) s p := by
  have hqueue : (fun s p => (n.nodes s p).map fun d => d.order.id) = r.queue := by
    funext s p
    exact h.ids s p
  rw [hnodes,← hqueue]
  exact congrFun (congrFun (map_setAt (List.map fun d : ListNode => d.order.id) n.nodes side price l) s) p

/-- Nodes belong to live orders. -/
lemma Holds.id_ne (h : Holds n r) (habsent : id ∉ r.orders) {s : Side} {p : UInt64} {d : ListNode}
    (hd : d ∈ n.nodes s p) : d.order.id ≠ id := by
  rintro rfl
  apply habsent
  rw [← Finmap.lookup_isSome,(h.node s p d hd).1]
  rfl

lemma mem_nodes_append {node : ListNode}
    (hnodes : n'.nodes = setAt n.nodes side price (n.nodes side price ++ [node])) :
    ∀ s p d, d ∈ n'.nodes s p ↔ d ∈ n.nodes s p ∨ s = side ∧ p = price ∧ d = node := by
  rw [hnodes]
  refine setAt_forall (P := fun s p (l : List ListNode) => ∀ d, d ∈ l ↔ d ∈ n.nodes s p ∨
    s = side ∧ p = price ∧ d = node) ?_ ?_
  · simp
  · intro s p hsp d
    rw [← and_assoc,or_iff_left fun hnew => hsp hnew.1]

theorem Holds.added (h : Holds n r) (habsent : id ∉ r.orders)
    (hlevel : n'.level = setAt n.level side price
      (some (n.nodes side price ++ [⟨n.nextAddress,⟨id,price,quantity,side⟩⟩])))
    (horders : n'.orders = Function.update n.orders id (some ⟨side,price,n.nextAddress⟩))
    (hnext : n'.nextAddress = n.nextAddress + 1) :
    Holds n' { r with
      orders := r.orders.insert id ⟨side,price,quantity⟩
      queue := setAt r.queue side price (r.queue side price ++ [id]) } := by
  have hnodes := nodes_of_level hlevel
  rw [Option.getD_some] at hnodes
  have hmem := mem_nodes_append hnodes
  constructor
  · intro s p
    rw [h.ids_setAt hnodes,List.map_append,h.ids]
    rfl
  · rw [hlevel]
    refine setAt_forall (P := fun _ _ (l : Option (List ListNode)) => l ≠ some []) (by simp) ?_
    exact fun s p _ => h.nonempty s p
  · refine setAt_forall (P := fun _ _ (l : List UInt64) => l.Nodup) ?_ fun s p _ => h.nodup s p
    refine List.Nodup.append (h.nodup side price) (List.nodup_singleton id) ?_
    rw [List.disjoint_singleton,← h.ids,List.mem_map]
    rintro ⟨d,hd,heq⟩
    exact h.id_ne habsent hd heq
  · intro s p d hd
    rw [horders]
    rcases (hmem s p d).mp hd with hd | ⟨rfl,rfl,rfl⟩
    · have hne := h.id_ne habsent hd
      rw [Finmap.lookup_insert_of_ne _ hne,Function.update_of_ne hne]
      exact h.node s p d hd
    · exact ⟨Finmap.lookup_insert _,Function.update_self ..⟩
  · intro id' loc hloc
    rw [horders] at hloc
    by_cases hid : id' = id
    · subst hid
      rw [Function.update_self] at hloc
      obtain rfl := Option.some.inj hloc
      exact ⟨_,(hmem _ _ _).mpr (.inr ⟨rfl,rfl,rfl⟩),rfl,rfl⟩
    · rw [Function.update_of_ne hid] at hloc
      obtain ⟨d,hd,heq⟩ := h.located id' loc hloc
      exact ⟨d,(hmem _ _ d).mpr (.inl hd),heq⟩
  · intro id'
    rw [horders,Finmap.mem_insert]
    by_cases hid : id' = id
    · subst hid
      simp
    · rw [Function.update_of_ne hid,← h.known]
      simp [hid]
  · rw [hnodes]
    refine setAt_forall (P := fun _ _ (l : List ListNode) => (l.map ListNode.address).Nodup) ?_
      fun s p _ => h.addresses s p
    rw [List.map_append]
    refine List.Nodup.append (h.addresses side price) (List.nodup_singleton _) ?_
    simp only [List.map_cons,List.map_nil,List.disjoint_singleton,List.mem_map]
    rintro ⟨d,hd,heq⟩
    exact (h.fresh side price d hd).ne heq
  · intro s p d hd
    rw [hnext]
    rcases (hmem s p d).mp hd with hd | ⟨_,_,rfl⟩
    · exact Nat.lt_succ_of_lt (h.fresh s p d hd)
    · exact Nat.lt_succ_self _

/-- The node of a located order is the only one of its list with the address or with the id. -/
lemma Holds.split (h : Holds n r) {loc : OrderLocation} (hloc : n.orders id = some loc) :
    ∃ l₁ d l₂, n.nodes loc.side loc.price = l₁ ++ d :: l₂ ∧ d.order.id = id ∧
      ((n.nodes loc.side loc.price).eraseP fun d => d.address = loc.it) = l₁ ++ l₂ ∧
      (∀ e ∈ l₁, e.order.id ≠ id) ∧ ∀ e ∈ l₂, e.order.id ≠ id := by
  obtain ⟨d,hd,hid,hit⟩ := h.located id loc hloc
  obtain ⟨l₁,l₂,hsplit,herase⟩ := eraseP_eq_of_nodup (h.addresses loc.side loc.price) hd
  rw [hit] at herase
  have hnodup := h.nodup loc.side loc.price
  rw [← h.ids,hsplit,List.map_append,List.map_cons,hid,List.nodup_append,List.nodup_cons] at hnodup
  obtain ⟨_,⟨hnot₂,_⟩,hnot₁⟩ := hnodup
  refine ⟨l₁,d,l₂,hsplit,hid,herase,fun e he => ?_,fun e he heq => ?_⟩
  · exact hnot₁ e.order.id (List.mem_map_of_mem he) id List.mem_cons_self
  · exact hnot₂ (heq ▸ List.mem_map_of_mem he)

lemma Holds.ids_erase (h : Holds n r) {loc : OrderLocation} (hloc : n.orders id = some loc) :
    (((n.nodes loc.side loc.price).eraseP fun d => d.address = loc.it).map fun d => d.order.id) =
      (r.queue loc.side loc.price).erase id := by
  obtain ⟨l₁,d,l₂,hsplit,hid,herase,hnot₁,_⟩ := h.split hloc
  have hbefore : id ∉ l₁.map fun d => d.order.id := by
    rw [List.mem_map]
    rintro ⟨e,he,heq⟩
    exact hnot₁ e he heq
  rw [herase,← h.ids,hsplit,List.map_append,List.map_append,List.map_cons,hid,
    List.erase_append_right _ hbefore,List.erase_cons_head]

lemma Holds.mem_nodes_erase (h : Holds n r) {loc : OrderLocation} (hloc : n.orders id = some loc)
    (hnodes : n'.nodes = setAt n.nodes loc.side loc.price
      ((n.nodes loc.side loc.price).eraseP fun d => d.address = loc.it)) :
    ∀ s p e, e ∈ n'.nodes s p ↔ e ∈ n.nodes s p ∧ e.order.id ≠ id := by
  obtain ⟨l₁,d,l₂,hsplit,hid,herase,hnot₁,hnot₂⟩ := h.split hloc
  rw [hnodes,herase]
  refine setAt_forall (P := fun s p (l : List ListNode) => ∀ e, e ∈ l ↔ e ∈ n.nodes s p ∧ e.order.id ≠ id) ?_ ?_
  · intro e
    rw [hsplit,List.mem_append,List.mem_append,List.mem_cons]
    constructor
    · rintro (he | he)
      · exact ⟨.inl he,hnot₁ e he⟩
      · exact ⟨.inr (.inr he),hnot₂ e he⟩
    · rintro ⟨he | rfl | he,hne⟩
      · exact .inl he
      · exact absurd hid hne
      · exact .inr he
  · intro s p hsp e
    refine ⟨fun he => ⟨he,?_⟩,fun he => he.1⟩
    rintro rfl
    have heq := (h.node s p e he).2.symm.trans hloc
    obtain rfl := Option.some.inj heq
    exact hsp ⟨rfl,rfl⟩

/-- Erasing a located node from its list, and the level with it if it was the last. -/
theorem Holds.removed (h : Holds n r) {loc : OrderLocation} {l : List ListNode}
    (hloc : n.orders id = some loc)
    (hl : l = (n.nodes loc.side loc.price).eraseP fun d => d.address = loc.it)
    (hlevel : n'.level = setAt n.level loc.side loc.price (if l.isEmpty then none else some l))
    (horders : n'.orders = Function.update n.orders id none) (hnext : n'.nextAddress = n.nextAddress) :
    Holds n' { r with
      orders := r.orders.erase id
      queue := setAt r.queue loc.side loc.price ((r.queue loc.side loc.price).erase id) } := by
  have hnodes : n'.nodes = setAt n.nodes loc.side loc.price l := by
    rw [nodes_of_level hlevel]
    congr 1
    split
    · rename_i hempty
      rw [List.isEmpty_iff.mp hempty]
      rfl
    · rfl
  have hmem := h.mem_nodes_erase hloc (hl ▸ hnodes)
  constructor
  · intro s p
    rw [h.ids_setAt hnodes,hl,h.ids_erase hloc]
  · rw [hlevel]
    refine setAt_forall (P := fun _ _ (l : Option (List ListNode)) => l ≠ some []) ?_ ?_
    · split
      · simp
      · rename_i hempty
        simpa [List.isEmpty_iff] using hempty
    · exact fun s p _ => h.nonempty s p
  · refine setAt_forall (P := fun _ _ (l : List UInt64) => l.Nodup) ?_ fun s p _ => h.nodup s p
    exact (h.nodup loc.side loc.price).erase id
  · intro s p e he
    obtain ⟨he,hne⟩ := (hmem s p e).mp he
    rw [horders,Finmap.lookup_erase_ne hne,Function.update_of_ne hne]
    exact h.node s p e he
  · intro id' loc' hloc'
    rw [horders] at hloc'
    have hne : id' ≠ id := by
      rintro rfl
      simp at hloc'
    rw [Function.update_of_ne hne] at hloc'
    obtain ⟨e,he,heq,hit'⟩ := h.located id' loc' hloc'
    exact ⟨e,(hmem _ _ e).mpr ⟨he,heq ▸ hne⟩,heq,hit'⟩
  · intro id'
    rw [horders,Finmap.mem_erase]
    by_cases hid' : id' = id
    · subst hid'
      simp
    · rw [Function.update_of_ne hid',← h.known]
      simp [hid']
  · rw [hnodes]
    refine setAt_forall (P := fun _ _ (l : List ListNode) => (l.map ListNode.address).Nodup) ?_
      fun s p _ => h.addresses s p
    rw [hl]
    exact (List.eraseP_sublist.map _).nodup (h.addresses loc.side loc.price)
  · intro s p e he
    rw [hnext]
    exact h.fresh s p e ((hmem s p e).mp he).1

/-- One call of the naive book is a call of the reference, where the reference refuses an `add` only
for a live id. -/
theorem Holds.call (h : Holds n r) {c : BenchmarkCall}
    (hroom : ∀ id side price quantity, c = .add id side price quantity →
      price.toNat < r.maxPrice ∧ r.orders.keys.card < r.maxOrders) :
    ∃ n', n.call c = some ((r.call c.bookCall).1,n') ∧ Holds n' (r.call c.bookCall).2 := by
  cases c with
  | add id side price quantity =>
    obtain ⟨hprice,hcard⟩ := hroom id side price quantity rfl
    simp only [NaiveOrderBook.call,NaiveOrderBook.add,BenchmarkCall.bookCall,ReferenceBook.call,
      ReferenceBook.add]
    by_cases hlive : id ∈ r.orders
    · rw [if_pos ((h.known id).mp hlive),if_pos (.inr (.inl hlive))]
      exact ⟨n,rfl,h⟩
    · have hwhy : ¬ (r.maxPrice ≤ price.toNat ∨ id ∈ r.orders ∨ r.orders.keys.card = r.maxOrders) := by
        rintro (hp | hl | hc)
        · omega
        · exact hlive hl
        · omega
      rw [if_neg fun hknown => hlive ((h.known id).mpr hknown),if_neg hwhy]
      refine ⟨_,rfl,h.added hlive ?_ ?_ rfl⟩
      · exact n.level_setLevel side price _
      · simp
  | cancel id =>
    simp only [NaiveOrderBook.call,NaiveOrderBook.cancel,BenchmarkCall.bookCall,ReferenceBook.call,
      ReferenceBook.cancel]
    cases hloc : n.orders id with
    | none =>
      have hnone : r.orders.lookup id = none := by
        rw [Finmap.lookup_eq_none,h.known,hloc]
        simp
      rw [hnone]
      exact ⟨n,rfl,h⟩
    | some loc =>
      obtain ⟨d,hd,hid,hit⟩ := h.located id loc hloc
      have hlookup : r.orders.lookup id = some ⟨loc.side,loc.price,d.order.quantity⟩ :=
        hid ▸ (h.node loc.side loc.price d hd).1
      have hany : ((n.nodes loc.side loc.price).any fun d => d.address = loc.it) = true :=
        List.any_eq_true.mpr ⟨d,hd,by simpa using hit⟩
      rw [hlookup]
      simp only [hany,if_true]
      refine ⟨_,rfl,h.removed hloc rfl ?_ ?_ ?_⟩
      · exact n.level_setLevel loc.side loc.price _
      · simp
      · cases loc.side <;> rfl

end NaiveOrderBook

/-- Both books hold, level by level, the same ids and quantities in the same order, and the naive
maps have no other level. -/
structure SameLevels (b : LimitOrderBook) (n : NaiveOrderBook) : Prop where
  queues : ∀ side price, price.toNat < b.maxPrice → ∃ slots,
    Walks (fun i => (b.orderPool i).next) (b.level side price).head slots ∧
    (slots.map fun i => ((b.orderPool i).id,(b.orderPool i).quantity)) =
      (n.nodes side price).map fun d => (d.order.id,d.order.quantity)
  absent_iff : ∀ side price, price.toNat < b.maxPrice →
    (n.level side price = none ↔ (b.level side price).head = none)
  absent_above : ∀ side price, b.maxPrice ≤ price.toNat → n.level side price = none

open LimitOrderBook

/-- Books that hold one reference hold the same levels. -/
lemma LimitOrderBook.Refines.sameLevels {b : LimitOrderBook} {n : NaiveOrderBook} {r : ReferenceBook}
    (h : Refines b r) (hn : n.Holds r) : SameLevels b n := by
  obtain ⟨free,queue,hinv,ha⟩ := h
  have hids : ∀ s p, ((n.nodes s p).map fun d => d.order.id) =
      (queue s p).map fun i => (b.orderPool i).id := by
    intro s p
    rw [hn.ids,ha.queue]
  have habsent : ∀ s p, n.level s p = none ↔ queue s p = [] := by
    intro s p
    have hlength : (n.nodes s p).length = (queue s p).length := by
      simpa using congrArg List.length (hids s p)
    rw [← List.length_eq_zero_iff,← hlength,List.length_eq_zero_iff,NaiveOrderBook.nodes]
    cases hl : n.level s p with
    | none => simp
    | some l =>
      have hne := hn.nonempty s p
      rw [hl] at hne
      simpa using hne
  have hhead : ∀ s p, (b.level s p).head = (queue s p).head? := fun s p =>
    (hinv.pool.level s p).forward.start_eq
  constructor
  · intro s p _
    refine ⟨queue s p,(hinv.pool.level s p).forward,?_⟩
    have hslots : ((queue s p).map fun i => ((b.orderPool i).id,(b.orderPool i).quantity)) =
        (r.queue s p).map fun id => (id,r.quantity id) := by
      rw [ha.queue,List.map_map]
      refine List.map_congr_left fun i hi => ?_
      exact congrArg (Prod.mk _) (ha.quantity_slot ⟨s,p,hi⟩).symm
    have hnodes : ((n.nodes s p).map fun d => (d.order.id,d.order.quantity)) =
        (r.queue s p).map fun id => (id,r.quantity id) := by
      rw [← hn.ids,List.map_map]
      refine List.map_congr_left fun d hd => ?_
      simp [ReferenceBook.quantity,(hn.node s p d hd).1]
    rw [hslots,hnodes]
  · intro s p _
    rw [habsent,hhead,List.head?_eq_none_iff]
  · intro s p hp
    rw [habsent,List.eq_nil_iff_forall_not_mem]
    intro i hi
    have := (hinv.pool.queue_mem s p i hi).2.2
    omega

/-- Over every sequence of adds and cancels on which the optimised book returns, with prices in
range and room before each add, the naive book gives the same answers and after each call both hold
the same levels. -/
theorem run_agrees_naive (maxOrders maxPrice : ℕ) (hmax : 1 ≤ maxOrders) (calls : List BenchmarkCall)
    (hreturns : (run LimitOrderBook.call (LimitOrderBook.init maxOrders maxPrice)
      (calls.map BenchmarkCall.bookCall)).isSome)
    (hprice : ∀ id side price quantity, .add id side price quantity ∈ calls → price.toNat < maxPrice)
    (hroom : ∀ pre id side price quantity post, calls = pre ++ .add id side price quantity :: post →
      ∀ answers b, run LimitOrderBook.call (LimitOrderBook.init maxOrders maxPrice)
        (pre.map BenchmarkCall.bookCall) = some (answers,b) → b.liveOrders < maxOrders) :
    ∀ pre post, calls = pre ++ post → ∃ answers b n,
      run LimitOrderBook.call (LimitOrderBook.init maxOrders maxPrice) (pre.map BenchmarkCall.bookCall) =
        some (answers,b) ∧
      run NaiveOrderBook.call NaiveOrderBook.init pre = some (answers,n) ∧ SameLevels b n := by
  intro pre post hpre
  obtain ⟨⟨_,_⟩,hrun⟩ := Option.isSome_iff_exists.mp hreturns
  rw [hpre,List.map_append] at hrun
  obtain ⟨b,answers,_,hrun,_,_⟩ := run_append_eq_some.mp hrun
  have hI : ∃ n r, run NaiveOrderBook.call NaiveOrderBook.init pre = some (answers,n) ∧
      Refines b r ∧ n.Holds r ∧ r.maxOrders = maxOrders ∧ r.maxPrice = maxPrice := by
    rw [run_map] at hrun
    refine run_induction (I := fun pre answers b => ∃ n r,
      run NaiveOrderBook.call NaiveOrderBook.init pre = some (answers,n) ∧ Refines b r ∧ n.Holds r ∧
      r.maxOrders = maxOrders ∧ r.maxPrice = maxPrice) ?_ ?_ hrun
    · exact ⟨_,_,rfl,refines_init hmax maxPrice,NaiveOrderBook.holds_init maxOrders maxPrice,rfl,rfl⟩
    · rintro before c after answers' u a u' hsplit hu ⟨n,r,hn,hR,hholds,hmaxOrders,hmaxPrice⟩ hcall
      have hcalls : calls = before ++ c :: (after ++ post) := by rw [hpre,hsplit]; simp
      obtain ⟨ha,hR'⟩ := hR.call hcall
      have hopen : ∀ id side price quantity, c = .add id side price quantity →
          price.toNat < r.maxPrice ∧ r.orders.keys.card < r.maxOrders := by
        rintro id side price quantity rfl
        refine ⟨hmaxPrice ▸ hprice id side price quantity (by simp [hcalls]),?_⟩
        have hlive := hroom before id side price quantity _ hcalls answers' u (by rwa [run_map])
        obtain ⟨free,queue,hinv,habs⟩ := hR
        have hcard := hinv.card_keys habs
        have hcount := hinv.liveOrders_add_free
        rw [hmaxOrders]
        omega
      obtain ⟨n',hn',hholds'⟩ := hholds.call hopen
      rw [ha] at hn'
      obtain ⟨hsameOrders,hsamePrice⟩ := r.call_dimensions c.bookCall
      exact ⟨n',_,run_concat hn hn',hR',hholds',hsameOrders.trans hmaxOrders,hsamePrice.trans hmaxPrice⟩
  obtain ⟨n,r,hn,hR,hholds,_,_⟩ := hI
  exact ⟨answers,b,n,hrun,hn,hR.sameLevels hholds⟩

/-- The id 1 comes back on the other side, at another price, in the slot it had left. -/
theorem run_agrees_naive_readded : ∃ answers b n,
    run LimitOrderBook.call (LimitOrderBook.init 3 10)
      [.add 1 .buy 5 10,.add 7 .buy 5 20,.cancel 1,.add 1 .sell 8 30,.cancel 4] = some (answers,b) ∧
    run NaiveOrderBook.call NaiveOrderBook.init
      [.add 1 .buy 5 10,.add 7 .buy 5 20,.cancel 1,.add 1 .sell 8 30,.cancel 4] = some (answers,n) ∧
    SameLevels b n := by
  refine run_agrees_naive 3 10 (by decide)
    [.add 1 .buy 5 10,.add 7 .buy 5 20,.cancel 1,.add 1 .sell 8 30,.cancel 4] rfl ?_ ?_ _ []
    (List.append_nil _).symm
  · intro id side price quantity hadd
    simp only [List.mem_cons,BenchmarkCall.add.injEq,reduceCtorEq,List.not_mem_nil,or_false,false_or] at hadd
    rcases hadd with ⟨_,_,rfl,_⟩ | ⟨_,_,rfl,_⟩ | ⟨_,_,rfl,_⟩ <;> decide
  have hfree : ∀ k < 5, (run LimitOrderBook.call (LimitOrderBook.init 3 10)
      (([BenchmarkCall.add 1 .buy 5 10,.add 7 .buy 5 20,.cancel 1,.add 1 .sell 8 30,.cancel 4].take k).map
        BenchmarkCall.bookCall)).all fun p => decide (p.2.freeListHead ≠ none) := by decide +kernel
  intro pre id side price quantity post
  refine forall_split_of_take (P := fun pre _ => ∀ answers b, run LimitOrderBook.call
    (LimitOrderBook.init 3 10) (pre.map BenchmarkCall.bookCall) = some (answers,b) → b.liveOrders < 3)
    (fun k hk answers b hb => ?_) pre _ post
  obtain ⟨hmaxOrders,_,free,queue,hinv⟩ := valid_of_run (by decide) hb
  rw [← hmaxOrders,hinv.liveOrders_lt_iff]
  exact of_run_all (P := fun b => b.freeListHead ≠ none) (hfree k hk) hb

end TickToTrade
