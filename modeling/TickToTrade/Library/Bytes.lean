import Mathlib.Data.Nat.Digits.Lemmas

/-! Values in memory. The host stores the least significant byte first; swapping the bytes gives
network order. A buffer is a function on offsets, and a packed struct is the list of the sizes of
its fields. -/
namespace TickToTrade.Bytes

/-- The `n` bytes of `x` as the host stores them. -/
def hostBytes : ℕ → ℕ → List UInt8
  | 0, _ => []
  | n+1, x => UInt8.ofNat x :: hostBytes n (x / 256)

/-- The value the host reads from the bytes. -/
def hostValue (bytes : List UInt8) : ℕ := Nat.ofDigits 256 (bytes.map UInt8.toNat)

@[simp] theorem length_hostBytes (n x : ℕ) : (hostBytes n x).length = n := by
  induction n generalizing x with
  | zero => rfl
  | succ n ih => simp [hostBytes,ih]

lemma hostValue_cons (b : UInt8) (bytes : List UInt8) :
    hostValue (b :: bytes) = b.toNat + 256 * hostValue bytes := by
  simp [hostValue,Nat.ofDigits_cons]

theorem hostValue_hostBytes (n x : ℕ) : hostValue (hostBytes n x) = x % 256 ^ n := by
  induction n generalizing x with
  | zero => simp [hostBytes,hostValue,Nat.mod_one]
  | succ n ih =>
    rw [hostBytes,hostValue_cons,ih,UInt8.toNat_ofNat',pow_succ' 256 n]
    exact Nat.mod_mul.symm

theorem hostValue_lt (bytes : List UInt8) : hostValue bytes < 256 ^ bytes.length := by
  have hdigits : ∀ d ∈ bytes.map UInt8.toNat, d < 256 := by
    intro d hd
    obtain ⟨b,_,rfl⟩ := List.mem_map.mp hd
    exact b.toNat_lt
  simpa [hostValue] using Nat.ofDigits_lt_base_pow_length (by decide) hdigits

theorem hostBytes_hostValue (bytes : List UInt8) : hostBytes bytes.length (hostValue bytes) = bytes := by
  induction bytes with
  | nil => rfl
  | cons b bytes ih =>
    have hb := b.toNat_lt
    rw [List.length_cons,hostBytes,hostValue_cons,
      Nat.add_mul_div_left _ _ (by decide : 0 < 256),Nat.div_eq_of_lt hb,Nat.zero_add,ih]
    congr 1
    apply UInt8.toNat_inj.mp
    rw [UInt8.toNat_ofNat']
    omega

/-- `__builtin_bswap` on a value of `n` bytes. -/
def byteSwap (n x : ℕ) : ℕ := hostValue (hostBytes n x).reverse

theorem byteSwap_lt (n x : ℕ) : byteSwap n x < 256 ^ n := by
  simpa [byteSwap] using hostValue_lt (hostBytes n x).reverse

theorem byteSwap_byteSwap {n x : ℕ} (hx : x < 256 ^ n) : byteSwap n (byteSwap n x) = x := by
  have hbytes := hostBytes_hostValue (hostBytes n x).reverse
  rw [List.length_reverse,length_hostBytes] at hbytes
  rw [byteSwap,byteSwap,hbytes,List.reverse_reverse,hostValue_hostBytes,Nat.mod_eq_of_lt hx]

def bswap16 (x : UInt16) : UInt16 := UInt16.ofNat (byteSwap 2 x.toNat)

def bswap32 (x : UInt32) : UInt32 := UInt32.ofNat (byteSwap 4 x.toNat)

def bswap64 (x : UInt64) : UInt64 := UInt64.ofNat (byteSwap 8 x.toNat)

lemma toNat_bswap16 (x : UInt16) : (bswap16 x).toNat = byteSwap 2 x.toNat := by
  rw [bswap16,UInt16.toNat_ofNat']
  exact Nat.mod_eq_of_lt (byteSwap_lt 2 _)

lemma toNat_bswap32 (x : UInt32) : (bswap32 x).toNat = byteSwap 4 x.toNat := by
  rw [bswap32,UInt32.toNat_ofNat']
  exact Nat.mod_eq_of_lt (byteSwap_lt 4 _)

lemma toNat_bswap64 (x : UInt64) : (bswap64 x).toNat = byteSwap 8 x.toNat := by
  rw [bswap64,UInt64.toNat_ofNat']
  exact Nat.mod_eq_of_lt (byteSwap_lt 8 _)

@[simp] theorem bswap32_bswap32 (x : UInt32) : bswap32 (bswap32 x) = x := by
  apply UInt32.toNat_inj.mp
  rw [toNat_bswap32,toNat_bswap32,byteSwap_byteSwap x.toNat_lt]

@[simp] theorem bswap64_bswap64 (x : UInt64) : bswap64 (bswap64 x) = x := by
  apply UInt64.toNat_inj.mp
  rw [toNat_bswap64,toNat_bswap64,byteSwap_byteSwap x.toNat_lt]

/-- The `n` bytes of `x` in network order, the most significant first. -/
def bigEndian (n x : ℕ) : List UInt8 := (hostBytes n x).reverse

@[simp] theorem length_bigEndian (n x : ℕ) : (bigEndian n x).length = n := by simp [bigEndian]

theorem hostBytes_byteSwap (n x : ℕ) : hostBytes n (byteSwap n x) = bigEndian n x := by
  have hbytes := hostBytes_hostValue (hostBytes n x).reverse
  rwa [List.length_reverse,length_hostBytes] at hbytes

theorem bigEndian_eq_iff {n x y : ℕ} : bigEndian n x = bigEndian n y ↔ x % 256 ^ n = y % 256 ^ n := by
  rw [bigEndian,bigEndian,List.reverse_inj]
  constructor
  · intro h
    rw [← hostValue_hostBytes,← hostValue_hostBytes,h]
  · intro h
    have hbytes : ∀ z, hostBytes n (z % 256 ^ n) = hostBytes n z := by
      intro z
      have hz := hostBytes_hostValue (hostBytes n z)
      rwa [length_hostBytes,hostValue_hostBytes] at hz
    rw [← hbytes x,h,hbytes]

lemma bigEndian_inj {n x y : ℕ} (hx : x < 256 ^ n) (hy : y < 256 ^ n) :
    bigEndian n x = bigEndian n y ↔ x = y := by
  rw [bigEndian_eq_iff,Nat.mod_eq_of_lt hx,Nat.mod_eq_of_lt hy]

lemma hostBytes_concat (n x : ℕ) : hostBytes (n + 1) x = hostBytes n x ++ [UInt8.ofNat (x / 256 ^ n)] := by
  induction n generalizing x with
  | zero => simp [hostBytes]
  | succ n ih =>
    rw [hostBytes,ih (x / 256),Nat.div_div_eq_div_mul,← Nat.pow_succ']
    rfl

lemma bigEndian_succ_of_lt {n x : ℕ} (hx : x < 256 ^ n) : bigEndian (n + 1) x = 0 :: bigEndian n x := by
  rw [bigEndian,hostBytes_concat,Nat.div_eq_of_lt hx,List.reverse_append]
  rfl

lemma hostBytes_bswap16 (x : UInt16) : hostBytes 2 (bswap16 x).toNat = bigEndian 2 x.toNat := by
  rw [toNat_bswap16,hostBytes_byteSwap]

lemma hostBytes_bswap32 (x : UInt32) : hostBytes 4 (bswap32 x).toNat = bigEndian 4 x.toNat := by
  rw [toNat_bswap32,hostBytes_byteSwap]

lemma hostBytes_bswap64 (x : UInt64) : hostBytes 8 (bswap64 x).toNat = bigEndian 8 x.toNat := by
  rw [toNat_bswap64,hostBytes_byteSwap]

/-- The byte of a word that a shift brings to its low end. -/
lemma byte_shiftRight (x k : UInt64) :
    ((x >>> k) &&& 0xFF).toUInt8 = UInt8.ofNat (x.toNat >>> (k.toNat % 64)) := by
  have hmask : x.toNat >>> (k.toNat % 64) &&& (0xFF : UInt64).toNat = x.toNat >>> (k.toNat % 64) % 2 ^ 8 :=
    Nat.and_two_pow_sub_one_eq_mod _ 8
  apply UInt8.toNat_inj.mp
  rw [UInt64.toNat_toUInt8,UInt64.toNat_and,UInt64.toNat_shiftRight,hmask,UInt8.toNat_ofNat',Nat.mod_mod]

lemma toNat_toUInt64_shiftLeft (b : UInt8) {k : UInt64} (hk : k.toNat ≤ 56) :
    (b.toUInt64 <<< k).toNat = b.toNat * 2 ^ k.toNat := by
  have hb := b.toNat_lt
  have hpow : 2 ^ k.toNat ≤ 2 ^ 56 := Nat.pow_le_pow_right (by decide) hk
  have hle : b.toNat * 2 ^ k.toNat ≤ b.toNat * 2 ^ 56 := Nat.mul_le_mul_left _ hpow
  rw [UInt64.toNat_shiftLeft,UInt8.toNat_toUInt64,Nat.mod_eq_of_lt (by omega : k.toNat < 64),Nat.shiftLeft_eq]
  exact Nat.mod_eq_of_lt (by omega)

lemma or_mul_two_pow {a b k : ℕ} (hb : b < 2 ^ k) : a * 2 ^ k ||| b = a * 2 ^ k + b := by
  rw [Nat.mul_comm,Nat.two_pow_add_eq_or_of_lt hb]

/-- The `n` bytes of the buffer from the offset on. -/
def slice (buffer : ℕ → UInt8) (offset n : ℕ) : List UInt8 := (List.range n).map fun i => buffer (offset + i)

/-- The buffer with the bytes written from the offset on. -/
def store (buffer : ℕ → UInt8) (offset : ℕ) (bytes : List UInt8) : ℕ → UInt8 :=
  fun i => if offset ≤ i then (bytes[i - offset]?).getD (buffer i) else buffer i

@[simp] theorem length_slice (buffer : ℕ → UInt8) (offset n : ℕ) : (slice buffer offset n).length = n := by
  simp [slice]

lemma slice_one (buffer : ℕ → UInt8) (offset : ℕ) : slice buffer offset 1 = [buffer offset] := by simp [slice]

lemma mem_slice {buffer : ℕ → UInt8} {offset n : ℕ} {b : UInt8} :
    b ∈ slice buffer offset n ↔ ∃ i, offset ≤ i ∧ i < offset + n ∧ buffer i = b := by
  rw [slice,List.mem_map]
  constructor
  · intro ⟨i,hi,hb⟩
    exact ⟨offset + i,by omega,Nat.add_lt_add_left (List.mem_range.mp hi) _,hb⟩
  · intro ⟨i,hle,hlt,hb⟩
    refine ⟨i - offset,List.mem_range.mpr (by omega),?_⟩
    rwa [Nat.add_sub_cancel' hle]

/-- A buffer that holds the bytes from its start on. -/
def ofBytes (bytes : List UInt8) : ℕ → UInt8 := fun i => bytes.getD i 0

lemma slice_congr {buffer buffer' : ℕ → UInt8} {offset n : ℕ}
    (h : ∀ i, offset ≤ i → i < offset + n → buffer i = buffer' i) :
    slice buffer offset n = slice buffer' offset n := by
  apply List.map_congr_left
  intro i hi
  have hlt := List.mem_range.mp hi
  exact h _ (by omega) (by omega)

lemma ofBytes_slice {buffer : ℕ → UInt8} {n i : ℕ} (hi : i < n) : ofBytes (slice buffer 0 n) i = buffer i := by
  simp [ofBytes,slice,hi]

theorem slice_store {bytes : List UInt8} {n : ℕ} (hn : bytes.length = n) (buffer : ℕ → UInt8) (offset : ℕ) :
    slice (store buffer offset bytes) offset n = bytes := by
  apply List.ext_getElem
  · simp [hn]
  · intro i _ hi
    simp [slice,store,hi]

theorem slice_store_of_disjoint {bytes : List UInt8} {n offset offset' : ℕ} (buffer : ℕ → UInt8)
    (h : offset' + n ≤ offset ∨ offset + bytes.length ≤ offset') :
    slice (store buffer offset bytes) offset' n = slice buffer offset' n := by
  apply List.map_congr_left
  intro i hi
  have hlt := List.mem_range.mp hi
  unfold store
  split
  · rw [List.getElem?_eq_none (by omega),Option.getD_none]
  · rfl

/-- Read a field of four or eight bytes as the host does. -/
def load32 (buffer : ℕ → UInt8) (offset : ℕ) : UInt32 := UInt32.ofNat (hostValue (slice buffer offset 4))

def load64 (buffer : ℕ → UInt8) (offset : ℕ) : UInt64 := UInt64.ofNat (hostValue (slice buffer offset 8))

lemma load64_congr {buffer buffer' : ℕ → UInt8} {length offset : ℕ} (h : ∀ i < length, buffer i = buffer' i)
    (hle : offset + 8 ≤ length) : load64 buffer offset = load64 buffer' offset := by
  rw [load64,load64,slice_congr fun i _ hi => h i (by omega)]

lemma load32_congr {buffer buffer' : ℕ → UInt8} {length offset : ℕ} (h : ∀ i < length, buffer i = buffer' i)
    (hle : offset + 4 ≤ length) : load32 buffer offset = load32 buffer' offset := by
  rw [load32,load32,slice_congr fun i _ hi => h i (by omega)]

/-- `sizeof` a packed struct, and the offset of its field `i`. -/
def packedSize (fields : List ℕ) : ℕ := fields.sum

def fieldOffset (fields : List ℕ) (i : ℕ) : ℕ := (fields.take i).sum

/-- Write the fields of a packed struct one after another. -/
def storeFields (buffer : ℕ → UInt8) (offset : ℕ) : List (List UInt8) → ℕ → UInt8
  | [] => buffer
  | field :: fields => storeFields (store buffer offset field) (offset + field.length) fields

lemma store_append (buffer : ℕ → UInt8) (offset : ℕ) (bytes more : List UInt8) :
    store (store buffer offset bytes) (offset + bytes.length) more = store buffer offset (bytes ++ more) := by
  funext i
  unfold store
  by_cases hi : offset ≤ i
  · by_cases hmore : offset + bytes.length ≤ i
    · have hindex : i - offset - bytes.length = i - (offset + bytes.length) := by omega
      rw [if_pos hmore,if_pos hi,if_pos hi,List.getElem?_append_right (by omega),hindex,
        List.getElem?_eq_none (by omega : bytes.length ≤ i - offset)]
      rfl
    · rw [if_neg hmore,if_pos hi,if_pos hi,List.getElem?_append_left (by omega)]
  · rw [if_neg (by omega),if_neg hi,if_neg hi]

/-- The fields of a packed struct stand one behind the other. -/
theorem storeFields_eq_store (buffer : ℕ → UInt8) (offset : ℕ) (fields : List (List UInt8)) :
    storeFields buffer offset fields = store buffer offset fields.flatten := by
  induction fields generalizing buffer offset with
  | nil =>
    funext i
    simp [storeFields,store]
  | cons field fields ih => rw [storeFields,ih,store_append,List.flatten_cons]

lemma store_of_le {bytes : List UInt8} {offset i : ℕ} (buffer : ℕ → UInt8) (h : offset + bytes.length ≤ i) :
    store buffer offset bytes i = buffer i := by
  rw [store,if_pos (by omega),List.getElem?_eq_none (by omega),Option.getD_none]

lemma store_zero_eq_ofBytes (bytes : List UInt8) : store (fun _ => 0) 0 bytes = ofBytes bytes := by
  funext i
  simp [store,ofBytes]

/-- Later fields do not touch what stands before them. -/
lemma slice_storeFields_of_le {fields : List (List UInt8)} {n offset offset' : ℕ} (buffer : ℕ → UInt8)
    (h : offset' + n ≤ offset) : slice (storeFields buffer offset fields) offset' n = slice buffer offset' n := by
  induction fields generalizing buffer offset with
  | nil => rfl
  | cons field fields ih =>
    rw [storeFields,ih _ (by omega),slice_store_of_disjoint buffer (.inl h)]

theorem slice_storeFields {fields : List (List UInt8)} {i : ℕ} {field : List UInt8}
    (hfield : fields[i]? = some field) (buffer : ℕ → UInt8) (offset : ℕ) :
    slice (storeFields buffer offset fields) (offset + fieldOffset (fields.map List.length) i) field.length =
      field := by
  induction fields generalizing buffer offset i with
  | nil => simp at hfield
  | cons first fields ih =>
    cases i with
    | zero =>
      obtain rfl : first = field := by simpa using hfield
      rw [storeFields,fieldOffset,List.take_zero,List.sum_nil,Nat.add_zero,
        slice_storeFields_of_le _ (le_refl _),slice_store rfl]
    | succ i =>
      have hoffset : offset + fieldOffset ((first :: fields).map List.length) (i + 1) =
          offset + first.length + fieldOffset (fields.map List.length) i := by
        simp [fieldOffset,Nat.add_assoc]
      rw [storeFields,hoffset]
      exact ih (by simpa using hfield) _ _

section Fields
variable {fields : List (List UInt8)} {i : ℕ}

lemma load32_storeFields {x : UInt32} (hfield : fields[i]? = some (hostBytes 4 x.toNat)) (buffer : ℕ → UInt8) :
    load32 (storeFields buffer 0 fields) (fieldOffset (fields.map List.length) i) = x := by
  have hslice := slice_storeFields hfield buffer 0
  rw [length_hostBytes,Nat.zero_add] at hslice
  rw [load32,hslice,hostValue_hostBytes]
  apply UInt32.toNat_inj.mp
  rw [UInt32.toNat_ofNat']
  have := x.toNat_lt
  omega

lemma load64_storeFields {x : UInt64} (hfield : fields[i]? = some (hostBytes 8 x.toNat)) (buffer : ℕ → UInt8) :
    load64 (storeFields buffer 0 fields) (fieldOffset (fields.map List.length) i) = x := by
  have hslice := slice_storeFields hfield buffer 0
  rw [length_hostBytes,Nat.zero_add] at hslice
  rw [load64,hslice,hostValue_hostBytes]
  apply UInt64.toNat_inj.mp
  rw [UInt64.toNat_ofNat']
  have := x.toNat_lt
  omega

lemma byte_storeFields {b : UInt8} (hfield : fields[i]? = some [b]) (buffer : ℕ → UInt8) :
    storeFields buffer 0 fields (fieldOffset (fields.map List.length) i) = b := by
  have hslice := slice_storeFields hfield buffer 0
  simpa [slice] using hslice

end Fields

/-- A packed struct followed by other bytes, as it stands in memory. -/
lemma ofBytes_flatten_append (fields : List (List UInt8)) (rest : List UInt8) :
    ofBytes (fields.flatten ++ rest) = storeFields (fun _ => 0) 0 (fields ++ [rest]) := by
  rw [storeFields_eq_store,store_zero_eq_ofBytes]
  simp

section Decode
variable {fields : List (List UInt8)} {sizes : List ℕ} {i : ℕ}
  (hsizes : fields.map List.length = sizes) (rest : List UInt8)
include hsizes

lemma fieldOffset_append (hi : i < fields.length) :
    fieldOffset ((fields ++ [rest]).map List.length) i = fieldOffset sizes i := by
  rw [← hsizes,fieldOffset,fieldOffset,List.map_append,List.take_append_of_le_length]
  rw [List.length_map]
  exact hi.le

/-- Network-order fields are read back through the swap, whatever follows the struct. -/
lemma bswap32_load32_encoded {x : UInt32} (hfield : fields[i]? = some (bigEndian 4 x.toNat)) :
    bswap32 (load32 (ofBytes (fields.flatten ++ rest)) (fieldOffset sizes i)) = x := by
  obtain ⟨hi,_⟩ := List.getElem?_eq_some_iff.mp hfield
  rw [ofBytes_flatten_append,← fieldOffset_append hsizes rest hi,
    load32_storeFields (x := bswap32 x),bswap32_bswap32]
  rw [List.getElem?_append_left hi,hostBytes_bswap32]
  exact hfield

lemma bswap64_load64_encoded {x : UInt64} (hfield : fields[i]? = some (bigEndian 8 x.toNat)) :
    bswap64 (load64 (ofBytes (fields.flatten ++ rest)) (fieldOffset sizes i)) = x := by
  obtain ⟨hi,_⟩ := List.getElem?_eq_some_iff.mp hfield
  rw [ofBytes_flatten_append,← fieldOffset_append hsizes rest hi,
    load64_storeFields (x := bswap64 x),bswap64_bswap64]
  rw [List.getElem?_append_left hi,hostBytes_bswap64]
  exact hfield

lemma byte_encoded {b : UInt8} (hfield : fields[i]? = some [b]) :
    ofBytes (fields.flatten ++ rest) (fieldOffset sizes i) = b := by
  obtain ⟨hi,_⟩ := List.getElem?_eq_some_iff.mp hfield
  rw [ofBytes_flatten_append,← fieldOffset_append hsizes rest hi]
  apply byte_storeFields
  rw [List.getElem?_append_left hi]
  exact hfield

end Decode

/-- The fields of a packed struct as they stand in the buffer. -/
def fieldSlices (buffer : ℕ → UInt8) : ℕ → List ℕ → List (List UInt8)
  | _, [] => []
  | offset, n :: sizes => slice buffer offset n :: fieldSlices buffer (offset + n) sizes

lemma slice_add (buffer : ℕ → UInt8) (offset n m : ℕ) :
    slice buffer offset (n + m) = slice buffer offset n ++ slice buffer (offset + n) m := by
  simp [slice,List.range_add,Nat.add_assoc]

/-- Put together, the fields are the bytes of the struct. -/
theorem flatten_fieldSlices (buffer : ℕ → UInt8) (offset : ℕ) (sizes : List ℕ) :
    (fieldSlices buffer offset sizes).flatten = slice buffer offset (packedSize sizes) := by
  induction sizes generalizing offset with
  | nil => rfl
  | cons n sizes ih => rw [fieldSlices,List.flatten_cons,ih,packedSize,packedSize,List.sum_cons,slice_add]

lemma slice_ofBytes (bytes : List UInt8) : slice (ofBytes bytes) 0 bytes.length = bytes := by
  rw [← store_zero_eq_ofBytes]
  exact slice_store rfl _ 0

/-- Writing back what was read leaves the bytes as they were. -/
lemma hostBytes_load32 (buffer : ℕ → UInt8) (offset : ℕ) :
    hostBytes 4 (load32 buffer offset).toNat = slice buffer offset 4 := by
  have hlt := hostValue_lt (slice buffer offset 4)
  have hbytes := hostBytes_hostValue (slice buffer offset 4)
  rw [length_slice] at hlt hbytes
  rw [load32,UInt32.toNat_ofNat',Nat.mod_eq_of_lt (by exact hlt),hbytes]

/-- The swap changes the order of the bytes read, not which they are. -/
lemma mem_hostBytes_bswap32_load32 {buffer : ℕ → UInt8} {offset : ℕ} {b : UInt8} :
    b ∈ hostBytes 4 (bswap32 (load32 buffer offset)).toNat ↔ b ∈ slice buffer offset 4 := by
  rw [hostBytes_bswap32,bigEndian,List.mem_reverse,hostBytes_load32]

/-- Reads of memory that has bytes at some addresses only; a read elsewhere has no result. -/
def slice? (memory : ℕ → Option UInt8) (offset n : ℕ) : Option (List UInt8) :=
  (List.range n).mapM fun i => memory (offset + i)

def load32? (memory : ℕ → Option UInt8) (offset : ℕ) : Option UInt32 :=
  (slice? memory offset 4).map fun bytes => UInt32.ofNat (hostValue bytes)

def load64? (memory : ℕ → Option UInt8) (offset : ℕ) : Option UInt64 :=
  (slice? memory offset 8).map fun bytes => UInt64.ofNat (hostValue bytes)

section Checked
variable {memory : ℕ → Option UInt8} {length offset n : ℕ} (h : ∀ i < length, (memory i).isSome)
include h

lemma byte?_eq (hlt : offset < length) : memory offset = some ((memory offset).getD 0) := by
  obtain ⟨b,hb⟩ := Option.isSome_iff_exists.mp (h offset hlt)
  rw [hb]
  rfl

/-- Reads that stay below the length have a result: what an ordinary read gives. -/
lemma slice?_eq (hle : offset + n ≤ length) :
    slice? memory offset n = some (slice (fun i => (memory i).getD 0) offset n) := by
  induction n with
  | zero => rfl
  | succ n ih =>
    have hih := ih (by omega)
    obtain ⟨b,hb⟩ := Option.isSome_iff_exists.mp (h (offset + n) (by omega))
    unfold slice? slice at hih ⊢
    rw [List.range_succ,List.mapM_append,hih,List.map_append]
    simp [hb]

lemma load32?_eq (hle : offset + 4 ≤ length) :
    load32? memory offset = some (load32 (fun i => (memory i).getD 0) offset) := by
  rw [load32?,slice?_eq h hle]
  rfl

lemma load64?_eq (hle : offset + 8 ≤ length) :
    load64? memory offset = some (load64 (fun i => (memory i).getD 0) offset) := by
  rw [load64?,slice?_eq h hle]
  rfl

end Checked

end TickToTrade.Bytes
