import LivePatch.Host.Memory
import Mathlib.Data.Set.Card

namespace LivePatch

/-- Bytes and the consecutive addresses at which they are stored, in order. -/
def placed (address : UInt32) (bs : Bytes) : List (UInt32 × UInt8) :=
  bs.mapIdx fun k b => (address + UInt32.ofNat k, b)

/-- The byte that was stored last at an address, or zero. -/
def lastStored (stores : List (UInt32 × UInt8)) (x : UInt32) : UInt8 :=
  (stores.reverse.lookup x).getD 0

theorem add_ofNat_zero (address : UInt32) : address + UInt32.ofNat 0 = address :=
  UInt32.add_zero address

theorem add_ofNat_succ (address : UInt32) (k : Nat) :
    address + UInt32.ofNat (k + 1) = address + 1 + UInt32.ofNat k := by
  rw [UInt32.ofNat_add, UInt32.add_assoc, UInt32.add_comm (UInt32.ofNat k)]
  rfl

theorem placed_cons (address : UInt32) (b : UInt8) (bs : Bytes) :
    placed address (b :: bs) = (address, b) :: placed (address + 1) bs := by
  simp only [placed, List.mapIdx_cons, add_ofNat_succ, add_ofNat_zero]

theorem be16_eq_shifts (value : UInt16) : be16 value = [(value >>> 8).toUInt8, value.toUInt8] := by
  simp [be16, bigEndian, littleEndian, ← UInt8.toNat_inj, Nat.shiftRight_eq_div_pow]

theorem be32_eq_shifts (value : UInt32) :
    be32 value =
      [(value >>> 24).toUInt8, (value >>> 16).toUInt8, (value >>> 8).toUInt8, value.toUInt8] := by
  simp [be32, bigEndian, littleEndian, ← UInt8.toNat_inj, Nat.shiftRight_eq_div_pow,
    Nat.div_div_eq_div_mul]

namespace SparseBytes

/-- No zero is stored. -/
def Canonical (data : SparseBytes) : Prop :=
  ∀ x : UInt32, data[x]? ≠ some 0

def storeAll (data : SparseBytes) (stores : List (UInt32 × UInt8)) : SparseBytes :=
  stores.foldl (fun data s => data.store s.1 s.2) data

theorem getElem?_store (data : SparseBytes) (address x : UInt32) (b : UInt8) :
    (data.store address b)[x]? =
      if x = address then if b = 0 then none else some b else data[x]? := by
  unfold store
  by_cases zero : b = 0
  · simp [zero, Std.ExtTreeMap.getElem?_erase, @eq_comm _ x address]
  · simp [zero, Std.ExtTreeMap.getElem?_insert, @eq_comm _ x address]

theorem getD_store (data : SparseBytes) (address x : UInt32) (b : UInt8) :
    (data.store address b)[x]?.getD 0 = if x = address then b else data[x]?.getD 0 := by
  rw [getElem?_store]
  by_cases here : x = address
  · by_cases zero : b = 0 <;> simp [here, zero]
  · simp [here]

theorem Canonical.store {data : SparseBytes} (canonical : data.Canonical) (address : UInt32)
    (b : UInt8) : (data.store address b).Canonical := by
  intro x
  rw [getElem?_store]
  by_cases here : x = address
  · by_cases zero : b = 0 <;> simp [here, zero]
  · simpa [here] using canonical x

theorem canonical_empty : (∅ : SparseBytes).Canonical := by
  intro x
  simp

theorem Canonical.storeAll {data : SparseBytes} (canonical : data.Canonical)
    (stores : List (UInt32 × UInt8)) : (data.storeAll stores).Canonical := by
  induction stores generalizing data with
  | nil => exact canonical
  | cons s stores ih => exact ih (canonical.store s.1 s.2)

/-- The last of several stores at an address decides. -/
theorem getD_storeAll (data : SparseBytes) (stores : List (UInt32 × UInt8)) (x : UInt32) :
    (data.storeAll stores)[x]?.getD 0 = (stores.reverse.lookup x).getD (data[x]?.getD 0) := by
  induction stores generalizing data with
  | nil => rfl
  | cons s stores ih =>
    obtain ⟨address, b⟩ := s
    have first : data.storeAll ((address, b) :: stores) = (data.store address b).storeAll stores := rfl
    rw [first, ih, getD_store, List.reverse_cons, List.lookup_append, List.lookup_cons]
    cases later : stores.reverse.lookup x with
    | some c => rfl
    | none =>
      by_cases here : x = address
      · rw [if_pos here, beq_iff_eq.mpr here]
        rfl
      · rw [if_neg here, beq_eq_false_iff_ne.mpr here]
        rfl

/-- Without stored zeros, what is stored can be told from what is read. -/
theorem Canonical.getElem?_eq {data : SparseBytes} (canonical : data.Canonical) (x : UInt32) :
    data[x]? = if data[x]?.getD 0 = 0 then none else some (data[x]?.getD 0) := by
  have nonzero := canonical x
  cases stored : data[x]? with
  | none => simp
  | some b =>
    rw [stored] at nonzero
    have : b ≠ 0 := fun zero => nonzero (by rw [zero])
    simp [this]

theorem Canonical.eq_of_reads {data other : SparseBytes} (canonical : data.Canonical)
    (otherCanonical : other.Canonical) (reads : ∀ x : UInt32, data[x]?.getD 0 = other[x]?.getD 0) :
    data = other := by
  apply Std.ExtTreeMap.ext_getElem?
  intro x
  rw [canonical.getElem?_eq, otherCanonical.getElem?_eq, reads]

theorem Canonical.size_eq {data : SparseBytes} (canonical : data.Canonical) :
    data.size = {x : UInt32 | data[x]?.getD 0 ≠ 0}.ncard := by
  have stored : {x : UInt32 | data[x]?.getD 0 ≠ 0} = ↑data.keys.toFinset := by
    ext x
    simp only [Set.mem_ofPred_eq, List.coe_toFinset, Std.ExtTreeMap.mem_keys,
      Std.ExtTreeMap.mem_iff_isSome_getElem?]
    by_cases zero : data[x]?.getD 0 = 0
    · rw [canonical.getElem?_eq, if_pos zero]
      simp
    · rw [canonical.getElem?_eq, if_neg zero]
      simpa using zero
  rw [stored, Set.ncard_coe_finset, List.toFinset_card_of_nodup Std.ExtTreeMap.nodup_keys,
    Std.ExtTreeMap.length_keys]

end SparseBytes

namespace Memory

theorem load_eq (m : Memory) (address : UInt32) (bs : Bytes) :
    m.load address bs = { m with data := m.data.storeAll (placed address bs) } := by
  induction bs generalizing m address with
  | nil => rfl
  | cons b bs ih =>
    rw [load, ih, placed_cons]
    rfl

theorem write_eq (m : Memory) (address : UInt32) (bs : Bytes) :
    m.write address bs =
      { m with data := m.data.storeAll (placed address bs), writes := m.writes + 1 } := by
  rw [write, load_eq]

theorem getElem?_bytes (m : Memory) (address : UInt32) (length k : Nat) :
    (m.bytes address length)[k]? =
      if k < length then some (m.get (address + UInt32.ofNat k)) else none := by
  by_cases inside : k < length <;> simp [bytes, inside]

theorem readHalf_toNat (m : Memory) (x : UInt32) :
    (Host.readHalf m x).1.toNat = (m.get x).toNat * 256 + (m.get (x + 1)).toNat := by
  have high := (m.get x).toNat_lt
  have low := (m.get (x + 1)).toNat_lt
  simp [Host.readHalf, bytes, List.range_succ, ofBigEndian, ofLittleEndian]
  omega

theorem readWord_toNat (m : Memory) (x : UInt32) :
    (Host.readWord m x).1.toNat = (m.get x).toNat * 16777216 + (m.get (x + 1)).toNat * 65536 +
      (m.get (x + 2)).toNat * 256 + (m.get (x + 3)).toNat := by
  have first := (m.get x).toNat_lt
  have second := (m.get (x + 1)).toNat_lt
  have third := (m.get (x + 2)).toNat_lt
  have fourth := (m.get (x + 3)).toNat_lt
  simp [Host.readWord, bytes, List.range_succ, ofBigEndian, ofLittleEndian]
  omega

/-- What can be done to a memory. -/
inductive Operation where
  | load (address : UInt32) (bs : Bytes)
  | writeByte (address : UInt32) (value : UInt8)
  | writeHalf (address : UInt32) (value : UInt16)
  | writeWord (address value : UInt32)
  | writeBytes (address : UInt32) (bs : Bytes)
  | native (code : Bytes)
  | systemCall (code : UInt16)
  | call (address : UInt32) (arguments : Vector UInt32 8) (count : Nat)

namespace Operation

def apply (m : Memory) : Operation → Memory
  | load address bs => m.load address bs
  | writeByte address value => Host.writeByte m address value
  | writeHalf address value => Host.writeHalf m address value
  | writeWord address value => Host.writeWord m address value
  | writeBytes address bs => Host.writeBytes m address bs
  | native code => (Host.runNative m code).1
  | systemCall code => Host.systemCall m code
  | call address arguments count => (Host.call m address arguments count).2

/-- The bytes that an operation stores and where, words with their high bytes first. -/
def stores : Operation → List (UInt32 × UInt8)
  | load address bs | writeBytes address bs => placed address bs
  | writeByte address value => placed address [value]
  | writeHalf address value => placed address [(value >>> 8).toUInt8, value.toUInt8]
  | writeWord address value =>
    placed address
      [(value >>> 24).toUInt8, (value >>> 16).toUInt8, (value >>> 8).toUInt8, value.toUInt8]
  | native _ | systemCall _ | call .. => []

def isWrite : Operation → Bool
  | writeByte .. | writeHalf .. | writeWord .. | writeBytes .. => true
  | load .. | native _ | systemCall _ | call .. => false

theorem data_apply (m : Memory) (op : Operation) :
    (op.apply m).data = m.data.storeAll op.stores := by
  cases op with
  | load address bs => rw [apply, load_eq, stores]
  | writeByte address value => simp only [apply, Host.writeByte, write_eq, stores]
  | writeHalf address value => simp only [apply, Host.writeHalf, write_eq, stores, be16_eq_shifts]
  | writeWord address value => simp only [apply, Host.writeWord, write_eq, stores, be32_eq_shifts]
  | writeBytes address bs => simp only [apply, Host.writeBytes, write_eq, stores]
  | native | systemCall | call => rfl

theorem writes_apply (m : Memory) (op : Operation) :
    (op.apply m).writes = m.writes + if op.isWrite then 1 else 0 := by
  cases op with
  | load address bs =>
    rw [apply, load_eq]
    rfl
  | writeByte | writeHalf | writeWord | writeBytes =>
    simp only [apply, Host.writeByte, Host.writeHalf, Host.writeWord, Host.writeBytes, write_eq,
      isWrite, if_true]
  | native | systemCall | call => rfl

end Operation

/-- A fresh memory after a history of operations. -/
def after (history : List Operation) : Memory :=
  history.foldl Operation.apply {}

theorem data_foldl_apply (m : Memory) (history : List Operation) :
    (history.foldl Operation.apply m).data = m.data.storeAll (history.flatMap Operation.stores) := by
  induction history generalizing m with
  | nil => rfl
  | cons op history ih =>
    rw [List.foldl_cons, ih, op.data_apply, List.flatMap_cons]
    exact List.foldl_append.symm

theorem writes_foldl_apply (m : Memory) (history : List Operation) :
    (history.foldl Operation.apply m).writes = m.writes + history.countP Operation.isWrite := by
  induction history generalizing m with
  | nil => rfl
  | cons op history ih =>
    rw [List.foldl_cons, ih, op.writes_apply, List.countP_cons]
    omega

theorem canonical_after (history : List Operation) : (after history).data.Canonical := by
  rw [after, data_foldl_apply]
  exact SparseBytes.canonical_empty.storeAll _

theorem get_after (history : List Operation) (x : UInt32) :
    (after history).get x = lastStored (history.flatMap Operation.stores) x := by
  rw [get, after, data_foldl_apply, SparseBytes.getD_storeAll]
  rfl

theorem writes_after (history : List Operation) :
    (after history).writes = history.countP Operation.isWrite := by
  rw [after, writes_foldl_apply]
  exact Nat.zero_add _

/-- After any history no zero is stored; a byte read is the last one stored at its address; words and
byte strings read are made of these bytes, at addresses that wrap; the size of the map is the number of
addresses that do not read as zero; the counter is the number of writes; and memories that read alike
hold the same map. -/
theorem reads_last_stored (history : List Operation) :
    let m := after history
    let byte := lastStored (history.flatMap Operation.stores)
    (∀ x : UInt32, m.data[x]? ≠ some 0) ∧
    (∀ x, (Host.readByte m x).1 = byte x) ∧
    (∀ x, (Host.readHalf m x).1.toNat = (byte x).toNat * 256 + (byte (x + 1)).toNat) ∧
    (∀ x, (Host.readWord m x).1.toNat = (byte x).toNat * 16777216 + (byte (x + 1)).toNat * 65536 +
      (byte (x + 2)).toNat * 256 + (byte (x + 3)).toNat) ∧
    (∀ x length k, (m.bytes x length)[k]? =
      if k < length then some (byte (x + UInt32.ofNat k)) else none) ∧
    m.resident = {x | byte x ≠ 0}.ncard ∧
    m.writes = history.countP Operation.isWrite ∧
    ∀ other, (∀ x, (Host.readByte m x).1 = (Host.readByte (after other) x).1) ↔
      m.data = (after other).data := by
  intro m byte
  have canonical : m.data.Canonical := canonical_after history
  have reads (x : UInt32) : m.get x = byte x := get_after history x
  refine ⟨canonical, reads, ?_, ?_, ?_, ?_, ?_, ?_⟩
  · intro x
    rw [readHalf_toNat, reads, reads]
  · intro x
    rw [readWord_toNat, reads, reads, reads, reads]
  · intro x length k
    rw [getElem?_bytes, reads]
  · rw [resident, canonical.size_eq]
    simp only [← reads, get]
  · exact writes_after history
  · intro other
    refine ⟨canonical.eq_of_reads (canonical_after other), ?_⟩
    intro same x
    exact congrArg (fun data : SparseBytes => data[x]?.getD 0) same

/-- A word that wraps, and a half word over its middle. -/
example :
    let m := after [.writeWord 0xFFFFFFFE 0x11223344, .writeHalf 0xFFFFFFFF 0]
    (Host.readWord m 0xFFFFFFFE).1 = 0x11000044 ∧ m.get 1 = 0x44 ∧ m.resident = 2 ∧ m.writes = 2 := by
  decide +kernel

end Memory

end LivePatch
