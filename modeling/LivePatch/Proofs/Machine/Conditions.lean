import LivePatch.Proofs.Machine.Series
import LivePatch.Proofs.Wire.BigEndian

namespace LivePatch

/-- A test of bytes in memory against the bytes of an operand. An upper bound that is longer is compared
with zeros in front of the bytes in memory. -/
def Comparison.HoldsBytewise (c : Comparison) (memory operand upper : Bytes) : Prop :=
  match c with
  | equal => memory = operand
  | notEqual => memory ≠ operand
  | greater => operand < memory
  | less => memory < operand
  | greaterOrEqual => operand < memory ∨ operand = memory
  | lessOrEqual => memory < operand ∨ memory = operand
  | and => ShareBit memory operand
  | or => ¬ ((∀ b ∈ memory, b = 0) ∧ ∀ b ∈ operand, b = 0)
  | between => operand < memory ∧ zeros (upper.length - memory.length) ++ memory < upper

/-- What holds of the numbers holds of their bytes. -/
theorem Comparison.holds_iff_bytewise (c : Comparison) {memory value : UInt32} (upper : UInt32)
    {bytes operand : Bytes} (stored : memory.toNat = ofBigEndian bytes)
    (given : value.toNat = ofBigEndian operand) (length : bytes.length = operand.length)
    (short : bytes.length ≤ 4) :
    c.holds memory value upper = true ↔ c.HoldsBytewise bytes operand (be32 upper) := by
  have same : memory = value ↔ bytes = operand := by
    rw [← UInt32.toNat_inj, stored, given]
    exact ⟨ofBigEndian_inj length, congrArg ofBigEndian⟩
  have less : memory < value ↔ bytes < operand := by
    rw [UInt32.lt_iff_toNat_lt, stored, given, ofBigEndian_lt_iff length]
  have greater : value < memory ↔ operand < bytes := by
    rw [UInt32.lt_iff_toNat_lt, stored, given, ofBigEndian_lt_iff length.symm]
  have lessOrSame (x y : UInt32) : x ≤ y ↔ x < y ∨ x = y := by
    rw [UInt32.le_iff_toNat_le, UInt32.lt_iff_toNat_lt, ← UInt32.toNat_inj]
    omega
  unfold holds HoldsBytewise
  cases c with
  | equal => rw [decide_eq_true_iff, same]
  | notEqual => rw [decide_eq_true_iff, ne_eq, same]
  | greater => rw [decide_eq_true_iff, greater]
  | less => rw [decide_eq_true_iff, less]
  | greaterOrEqual => rw [decide_eq_true_iff, lessOrSame, greater, eq_comm, same, @eq_comm _ operand]
  | lessOrEqual => rw [decide_eq_true_iff, lessOrSame, less, same]
  | and =>
    rw [decide_eq_true_iff, ne_eq, ← UInt32.toNat_inj, UInt32.toNat_and, stored, given]
    exact ofBigEndian_and_ne_zero_iff length
  | or =>
    rw [decide_eq_true_iff, ne_eq, ← UInt32.toNat_inj, UInt32.toNat_or, stored, given, UInt32.toNat_zero,
      Nat.or_eq_zero_iff, ofBigEndian_eq_zero_iff, ofBigEndian_eq_zero_iff]
  | between =>
    have wide : (zeros ((be32 upper).length - bytes.length) ++ bytes).length = (be32 upper).length := by
      rw [List.length_append, zeros, List.length_replicate, length_be32]
      omega
    rw [decide_eq_true_iff, greater, UInt32.lt_iff_toNat_lt, stored, ← value_be32,
      ← ofBigEndian_lt_iff wide, ofBigEndian_zeros_append]

theorem Memory.length_bytes (m : Memory) (address : UInt32) (length : Nat) :
    (m.bytes address length).length = length := by
  simp [bytes]

/-- The last bytes of an operand word, as many as the width has. -/
def Width.lastBytes (width : Width) (value : UInt32) : Bytes :=
  (be32 value).drop (4 - width.size)

theorem Width.length_lastBytes (width : Width) (value : UInt32) :
    (width.lastBytes value).length = width.size := by
  rw [lastBytes, List.length_drop, length_be32]
  cases width with
  | byte | half | word => rfl

theorem Width.toNat_truncate_eq (width : Width) (value : UInt32) :
    (width.truncate value).toNat = ofBigEndian (width.lastBytes value) := by
  have bound := value.toNat_lt
  rw [toNat_truncate]
  cases width with
  | byte => simp [lastBytes, size, be32, bigEndian, littleEndian, ofBigEndian, ofLittleEndian]
  | half | word =>
    simp [lastBytes, size, be32, bigEndian, littleEndian, ofBigEndian, ofLittleEndian]
    omega

namespace Channel

theorem toNat_readValue (c : Channel Memory) (width : Width) (address : UInt32) :
    (c.readValue width address).1.toNat = ofBigEndian (c.host.bytes address width.size) := by
  have bound := ofBigEndian_lt (c.host.bytes address width.size)
  rw [Memory.length_bytes] at bound
  cases width with
  | byte =>
    have first : c.host.bytes address 1 = [c.host.get address] :=
      congrArg (fun place => [c.host.get place]) (add_ofNat_zero address)
    show (c.host.get address).toUInt32.toNat = _
    rw [Width.size, first, ofBigEndian_cons, UInt8.toNat_toUInt32]
    simp [ofBigEndian, ofLittleEndian]
  | half =>
    show (UInt16.ofNat (ofBigEndian (c.host.bytes address 2))).toUInt32.toNat = _
    rw [UInt16.toNat_toUInt32, UInt16.toNat_ofNat']
    exact Nat.mod_eq_of_lt bound
  | word =>
    show (UInt32.ofNat (ofBigEndian (c.host.bytes address 4))).toNat = _
    rw [UInt32.toNat_ofNat']
    exact Nat.mod_eq_of_lt bound

/-- A test of simulated memory holds exactly if the bytes at the address, which may wrap, and the last
bytes of the operand compare so. -/
theorem test_compares_bytes (c : Channel Memory) (comparison : Comparison) (width : Width)
    (address value upper : UInt32) :
    (c.test comparison width address value upper).1 = true ↔
      comparison.HoldsBytewise (c.host.bytes address width.size) (width.lastBytes value)
        (be32 upper) := by
  have size : width.size ≤ 4 := by cases width <;> decide
  apply comparison.holds_iff_bytewise upper (c.toNat_readValue width address)
    (width.toNat_truncate_eq value)
  · rw [Memory.length_bytes, Width.length_lastBytes]
  · rw [Memory.length_bytes]
    exact size

end Channel

end LivePatch
