import TickToTrade.Library.Layout

/-! The memory block of the order book: four arrays one behind the other in one mapping, without
padding between them. Pointers and sizes are 64-bit words. -/
namespace TickToTrade
open Layout

/-- `mmap` of anonymous memory by its length, `none` for `MAP_FAILED`: a mapping starts at a page
boundary and lies in the address space. -/
structure Mmap where
  map : UInt64 → Option UInt64
  aligned : ∀ {length base}, map length = some base → 4096 ∣ base.toNat
  inside : ∀ {length base}, map length = some base → base.toNat + length.toNat ≤ 2 ^ 64

/-- `Order`: id, price, quantity, side, prev and next. -/
def orderType : CType := .struct 64 [uint64Type,uint64Type,uint64Type,enumType,pointerType,pointerType]

/-- `PriceLevel`: head, tail and total volume. -/
def priceLevelType : CType := .struct 1 [pointerType,pointerType,uint64Type]

/-- `HashEntry`: key and value. -/
def hashEntryType : CType := .struct 1 [uint64Type,pointerType]

/-- The pointers into the mapping, each with what it points to. -/
structure MemoryPool where
  mmapBase : UInt64
  totalMmapSize : UInt64
  bids : Region
  asks : Region
  orderPool : Region
  orderMap : Region

/-- `init_memory_pool` up to the free list; there is no result when the mapping fails. -/
def initMemoryPool (mmap : Mmap) (maxOrders maxPrice : UInt64) : Option MemoryPool := do
  let mapCapacity := maxOrders * 2
  let bidsSize := UInt64.ofNat priceLevelType.size * maxPrice
  let asksSize := UInt64.ofNat priceLevelType.size * maxPrice
  let poolSize := UInt64.ofNat orderType.size * maxOrders
  let mapSize := UInt64.ofNat hashEntryType.size * mapCapacity
  let totalMmapSize := bidsSize + asksSize + poolSize + mapSize
  let mmapBase ← mmap.map totalMmapSize
  let bids := mmapBase
  let asks := bids + bidsSize
  let orderPool := asks + asksSize
  let orderMap := orderPool + poolSize
  some
    { mmapBase := mmapBase
      totalMmapSize := totalMmapSize
      bids := ⟨bids,priceLevelType,maxPrice.toNat⟩
      asks := ⟨asks,priceLevelType,maxPrice.toNat⟩
      orderPool := ⟨orderPool,orderType,maxOrders.toNat⟩
      orderMap := ⟨orderMap,hashEntryType,mapCapacity.toNat⟩ }

namespace MemoryPool

def regions (pool : MemoryPool) : List Region := [pool.bids,pool.asks,pool.orderPool,pool.orderMap]

lemma forall_mem_regions {pool : MemoryPool} {P : Region → Prop} :
    (∀ r ∈ pool.regions, P r) ↔ P pool.bids ∧ P pool.asks ∧ P pool.orderPool ∧ P pool.orderMap := by
  simp [regions]

/-- The arrays do not overlap, lie inside the mapping, and all their elements are aligned. -/
structure WellLaidOut (pool : MemoryPool) : Prop where
  disjoint : pool.regions.Pairwise fun r r' => Disjoint r.addresses r'.addresses
  inside : ∀ r ∈ pool.regions,
    r.addresses ⊆ Finset.Ico pool.mmapBase.toNat (pool.mmapBase.toNat + pool.totalMmapSize.toNat)
  aligned : ∀ r ∈ pool.regions, r.Aligned

end MemoryPool

@[simp] lemma orderType_eq : orderType = ⟨64,64⟩ := rfl

@[simp] lemma priceLevelType_eq : priceLevelType = ⟨24,8⟩ := rfl

@[simp] lemma hashEntryType_eq : hashEntryType = ⟨16,8⟩ := rfl

section Arithmetic
variable {mmap : Mmap} {maxOrders maxPrice : UInt64} {pool : MemoryPool}

/-- Where the arrays start, as numbers: the pointers are words and may wrap around. -/
lemma initMemoryPool_eq_some (hlevels : 24 * maxPrice.toNat < 2 ^ 64) (hpool : 64 * maxOrders.toNat < 2 ^ 64)
    (hinit : initMemoryPool mmap maxOrders maxPrice = some pool) :
    ∃ mmapBase totalMmapSize asks orderPool orderMap : UInt64, mmap.map totalMmapSize = some mmapBase ∧
      totalMmapSize.toNat = (48 * maxPrice.toNat + 96 * maxOrders.toNat) % 2 ^ 64 ∧
      asks.toNat = (mmapBase.toNat + 24 * maxPrice.toNat) % 2 ^ 64 ∧
      orderPool.toNat = (mmapBase.toNat + 48 * maxPrice.toNat) % 2 ^ 64 ∧
      orderMap.toNat = (mmapBase.toNat + 48 * maxPrice.toNat + 64 * maxOrders.toNat) % 2 ^ 64 ∧
      pool = ⟨mmapBase,totalMmapSize,⟨mmapBase,priceLevelType,maxPrice.toNat⟩,⟨asks,priceLevelType,maxPrice.toNat⟩,
        ⟨orderPool,orderType,maxOrders.toNat⟩,⟨orderMap,hashEntryType,2 * maxOrders.toNat⟩⟩ := by
  have hlevel : (UInt64.ofNat priceLevelType.size * maxPrice).toNat = 24 * maxPrice.toNat := by
    rw [UInt64.toNat_mul]
    exact Nat.mod_eq_of_lt hlevels
  have horder : (UInt64.ofNat orderType.size * maxOrders).toNat = 64 * maxOrders.toNat := by
    rw [UInt64.toNat_mul]
    exact Nat.mod_eq_of_lt hpool
  have hcapacity : (maxOrders * 2).toNat = 2 * maxOrders.toNat := by
    have htwo : (2 : UInt64).toNat = 2 := rfl
    rw [UInt64.toNat_mul,htwo]
    omega
  have hentry : (UInt64.ofNat hashEntryType.size * (maxOrders * 2)).toNat = 32 * maxOrders.toNat := by
    have hsize : (UInt64.ofNat hashEntryType.size).toNat = 16 := rfl
    rw [UInt64.toNat_mul,hcapacity,hsize]
    omega
  obtain ⟨mmapBase,hbase,hsome⟩ := Option.bind_eq_some_iff.mp hinit
  refine ⟨mmapBase,_,_,_,_,hbase,?_,?_,?_,?_,by rw [← Option.some.inj hsome,hcapacity]⟩
  · simp only [UInt64.toNat_add,hlevel,horder,hentry]
    omega
  · simp only [UInt64.toNat_add,hlevel]
  · simp only [UInt64.toNat_add,hlevel]
    omega
  · simp only [UInt64.toNat_add,hlevel,horder]
    omega

end Arithmetic

/-- For all sizes of the book whose arrays have fewer than 2 ^ 64 bytes each, the mapping is well laid
out if and only if the number of prices is a multiple of four and the arrays fit 64 bits together. -/
theorem memory_layout_iff (mmap : Mmap) (maxOrders maxPrice : UInt64) (horders : 1 ≤ maxOrders.toNat)
    (hprice : 1 ≤ maxPrice.toNat) (hlevels : 24 * maxPrice.toNat < 2 ^ 64) (hpool : 64 * maxOrders.toNat < 2 ^ 64)
    (pool : MemoryPool) (hinit : initMemoryPool mmap maxOrders maxPrice = some pool) :
    pool.WellLaidOut ↔ 4 ∣ maxPrice.toNat ∧ 48 * maxPrice.toNat + 96 * maxOrders.toNat < 2 ^ 64 := by
  obtain ⟨mmapBase,totalMmapSize,asks,orderPool,orderMap,hbase,htotal,hasks,horderPool,horderMap,rfl⟩ :=
    initMemoryPool_eq_some hlevels hpool hinit
  have haligned := mmap.aligned hbase
  have hinside := mmap.inside hbase
  constructor
  · intro h
    constructor
    · -- the pool starts behind 48 bytes for each price
      obtain ⟨_,_,hpoolAligned,_⟩ := MemoryPool.forall_mem_regions.mp h.aligned
      have hstart : 64 ∣ orderPool.toNat := hpoolAligned.start horders
      omega
    · have hsum : 24 * maxPrice.toNat + (24 * maxPrice.toNat + (64 * maxOrders.toNat + 16 * (2 * maxOrders.toNat))) ≤
          totalMmapSize.toNat := by
        simpa [MemoryPool.regions,Region.bytes] using Region.sum_bytes_le h.disjoint h.inside
      have hlt := totalMmapSize.toNat_lt
      omega
  · intro ⟨hfour,hsum⟩
    -- the block has the size of the four arrays, so no pointer into it wraps around
    have hsize : totalMmapSize.toNat = 48 * maxPrice.toNat + 96 * maxOrders.toNat := by omega
    rw [hsize] at hinside
    rw [Nat.mod_eq_of_lt (by omega)] at hasks horderPool horderMap
    have hstarts : 8 ∣ mmapBase.toNat ∧ 8 ∣ asks.toNat ∧ 64 ∣ orderPool.toNat ∧ 8 ∣ orderMap.toNat := by omega
    have hlevel : priceLevelType.align ∣ priceLevelType.size := by decide
    have horder : orderType.align ∣ orderType.size := by decide
    have hentry : hashEntryType.align ∣ hashEntryType.size := by decide
    refine ⟨Region.pairwise_disjoint_of_chain ?_,MemoryPool.forall_mem_regions.mpr ?_,
      MemoryPool.forall_mem_regions.mpr ?_⟩
    · simp only [MemoryPool.regions,List.isChain_cons_cons,List.isChain_singleton,Region.Before,Region.stop,
        Region.bytes,priceLevelType_eq,orderType_eq,and_true]
      omega
    · refine ⟨Finset.Ico_subset_Ico ?_ ?_,Finset.Ico_subset_Ico ?_ ?_,Finset.Ico_subset_Ico ?_ ?_,
        Finset.Ico_subset_Ico ?_ ?_⟩
      all_goals
        simp only [Region.stop,Region.bytes,priceLevelType_eq,orderType_eq,hashEntryType_eq]
        omega
    · exact ⟨Region.aligned_of_start hlevel hstarts.1,Region.aligned_of_start hlevel hstarts.2.1,
        Region.aligned_of_start horder hstarts.2.2.1,Region.aligned_of_start hentry hstarts.2.2.2⟩

/-- A system that maps at its second page whatever still fits there. -/
def Mmap.secondPage : Mmap where
  map length := if 4096 + length.toNat ≤ 2 ^ 64 then some 4096 else none
  aligned h := by
    split at h
    · obtain rfl := Option.some.inj h
      decide
    · contradiction
  inside h := by
    split at h
    · obtain rfl := Option.some.inj h
      assumption
    · contradiction

/-- A book for a hundred orders at a hundred prices. -/
theorem memory_layout_iff_hundred :
    ∃ pool, initMemoryPool .secondPage 100 100 = some pool ∧ pool.WellLaidOut := by
  refine ⟨_,rfl,?_⟩
  exact (memory_layout_iff .secondPage 100 100 (by decide) (by decide) (by decide) (by decide) _ rfl).mpr
    ⟨by decide,by decide⟩

/-- With ten prices the pool starts in the middle of a cache line. -/
theorem order_pool_misaligned :
    ∃ pool, initMemoryPool .secondPage 100 10 = some pool ∧ ¬ pool.WellLaidOut := by
  refine ⟨_,rfl,fun h => ?_⟩
  obtain ⟨_,_,hpoolAligned,_⟩ := MemoryPool.forall_mem_regions.mp h.aligned
  have hstart := hpoolAligned.start (by decide)
  revert hstart
  decide

end TickToTrade
