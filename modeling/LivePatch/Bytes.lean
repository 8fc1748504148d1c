namespace LivePatch

abbrev Bytes := List UInt8

/-- A code line: the unit of which every stream is made. -/
abbrev Line := Vector UInt8 8

/-- The low `count` bytes of `n`, least significant first. -/
def littleEndian : Nat → Nat → Bytes
  | 0, _ => []
  | count + 1, n => UInt8.ofNat n :: littleEndian count (n / 256)

/-- The low `count` bytes of `n`, most significant first. -/
def bigEndian (count n : Nat) : Bytes :=
  (littleEndian count n).reverse

def ofLittleEndian : Bytes → Nat
  | [] => 0
  | b :: bs => b.toNat + 256 * ofLittleEndian bs

def ofBigEndian (bs : Bytes) : Nat :=
  ofLittleEndian bs.reverse

/-- Big-endian bytes of a 16-bit word. -/
def be16 (w : UInt16) : Bytes :=
  bigEndian 2 w.toNat

/-- Big-endian bytes of a 32-bit word. -/
def be32 (w : UInt32) : Bytes :=
  bigEndian 4 w.toNat

/-- Little-endian bytes of a 32-bit word. -/
def le32 (w : UInt32) : Bytes :=
  littleEndian 4 w.toNat

/-- Whether at least `n` elements are there; looks no further than that. -/
def fits {α : Type} : Nat → List α → Bool
  | 0, _ => true
  | _ + 1, [] => false
  | n + 1, _ :: l => fits n l

/-- `n` rounded up to a whole number of code lines. -/
def roundUpToLine (n : Nat) : Nat :=
  (n + 7) / 8 * 8

def zeros (n : Nat) : Bytes :=
  List.replicate n 0

/-- A payload followed by the zeros that complete its last line. -/
def padded (bs : Bytes) : Bytes :=
  bs ++ zeros (roundUpToLine bs.length - bs.length)

theorem fits_iff {α : Type} (n : Nat) (l : List α) : fits n l = true ↔ n ≤ l.length := by
  induction l generalizing n with
  | nil => cases n <;> simp [fits]
  | cons a l ih => cases n <;> simp [fits, ih]

theorem le_roundUpToLine (n : Nat) : n ≤ roundUpToLine n := by
  unfold roundUpToLine
  omega

theorem value_be16 (w : UInt16) : ofBigEndian (be16 w) = w.toNat := by
  have bound := w.toNat_lt
  simp [ofBigEndian, be16, bigEndian, littleEndian, ofLittleEndian]
  omega

theorem value_be32 (w : UInt32) : ofBigEndian (be32 w) = w.toNat := by
  have bound := w.toNat_lt
  simp [ofBigEndian, be32, bigEndian, littleEndian, ofLittleEndian]
  omega

theorem ofBigEndian_be16 (w : UInt16) : UInt16.ofNat (ofBigEndian (be16 w)) = w := by
  rw [value_be16, UInt16.ofNat_toNat]

theorem ofBigEndian_be32 (w : UInt32) : UInt32.ofNat (ofBigEndian (be32 w)) = w := by
  rw [value_be32, UInt32.ofNat_toNat]

theorem ofLittleEndian_le32 (w : UInt32) : UInt32.ofNat (ofLittleEndian (le32 w)) = w := by
  have bound := w.toNat_lt
  have value : ofLittleEndian (le32 w) = w.toNat := by
    simp [le32, littleEndian, ofLittleEndian]
    omega
  rw [value, UInt32.ofNat_toNat]

end LivePatch
