import Mathlib.Algebra.GroupWithZero.Nat
import LivePatch.Bytes

namespace LivePatch

theorem ofLittleEndian_inj {bs cs : Bytes} (length : bs.length = cs.length)
    (same : ofLittleEndian bs = ofLittleEndian cs) : bs = cs := by
  induction bs generalizing cs with
  | nil => exact (List.eq_nil_of_length_eq_zero length.symm).symm
  | cons b bs ih =>
    obtain ⟨c, cs, rfl⟩ := List.exists_cons_of_length_eq_add_one length.symm
    have small := b.toNat_lt
    have smallAgain := c.toNat_lt
    simp only [ofLittleEndian] at same
    have first : b = c := UInt8.toNat_inj.mp (by omega)
    rw [first, ih (Nat.succ.inj length) (by omega)]

theorem ofBigEndian_inj {bs cs : Bytes} (length : bs.length = cs.length)
    (same : ofBigEndian bs = ofBigEndian cs) : bs = cs := by
  have reversed := ofLittleEndian_inj (by rwa [List.length_reverse, List.length_reverse]) same
  exact List.reverse_inj.mp reversed

theorem ofLittleEndian_append (bs cs : Bytes) :
    ofLittleEndian (bs ++ cs) = ofLittleEndian bs + 2 ^ (8 * bs.length) * ofLittleEndian cs := by
  induction bs with
  | nil => simp [ofLittleEndian]
  | cons b bs ih =>
    have shifted : 2 ^ (8 * (bs.length + 1)) = 256 * 2 ^ (8 * bs.length) := by
      rw [Nat.mul_add, Nat.pow_add, Nat.mul_comm]
    rw [List.cons_append, ofLittleEndian, ofLittleEndian, ih, List.length_cons, shifted, Nat.mul_add,
      Nat.mul_assoc, Nat.add_assoc]

theorem ofBigEndian_cons (b : UInt8) (bs : Bytes) :
    ofBigEndian (b :: bs) = 2 ^ (8 * bs.length) * b.toNat + ofBigEndian bs := by
  rw [ofBigEndian, List.reverse_cons, ofLittleEndian_append, List.length_reverse, Nat.add_comm]
  rfl

theorem ofBigEndian_lt (bs : Bytes) : ofBigEndian bs < 2 ^ (8 * bs.length) := by
  induction bs with
  | nil => decide
  | cons b bs ih =>
    have small := b.toNat_lt
    have room : 2 ^ (8 * bs.length) * (b.toNat + 1) ≤ 2 ^ (8 * bs.length) * 256 :=
      Nat.mul_le_mul_left _ small
    rw [ofBigEndian_cons, List.length_cons, Nat.mul_add 8, Nat.pow_add]
    rw [Nat.mul_add] at room
    omega

theorem ofBigEndian_zeros_append (n : Nat) (bs : Bytes) :
    ofBigEndian (zeros n ++ bs) = ofBigEndian bs := by
  induction n with
  | zero => rfl
  | succ n ih =>
    have first : zeros (n + 1) ++ bs = 0 :: (zeros n ++ bs) := rfl
    rw [first, ofBigEndian_cons, ih, UInt8.toNat_zero, Nat.mul_zero, Nat.zero_add]

theorem ofBigEndian_eq_zero_iff (bs : Bytes) : ofBigEndian bs = 0 ↔ ∀ b ∈ bs, b = 0 := by
  induction bs with
  | nil => simp [ofBigEndian, ofLittleEndian]
  | cons b bs ih =>
    have scale : 2 ^ (8 * bs.length) ≠ 0 := Nat.ne_of_gt (Nat.two_pow_pos _)
    rw [ofBigEndian_cons, Nat.add_eq_zero_iff, ih, Nat.mul_eq_zero, or_iff_right scale,
      List.forall_mem_cons, ← UInt8.toNat_inj, UInt8.toNat_zero]

/-- The leading digits decide between two numbers, unless they are the same. -/
theorem mul_add_lt_iff {unit a b x y : Nat} (below : x < unit) (belowAgain : y < unit) :
    unit * a + x < unit * b + y ↔ a < b ∨ a = b ∧ x < y := by
  rcases Nat.lt_trichotomy a b with less | rfl | greater
  · have room : unit * (a + 1) ≤ unit * b := Nat.mul_le_mul_left _ less
    rw [Nat.mul_add] at room
    omega
  · omega
  · have room : unit * (b + 1) ≤ unit * a := Nat.mul_le_mul_left _ greater
    rw [Nat.mul_add] at room
    omega

theorem ofBigEndian_lt_iff {bs cs : Bytes} (length : bs.length = cs.length) :
    ofBigEndian bs < ofBigEndian cs ↔ bs < cs := by
  induction bs generalizing cs with
  | nil =>
    obtain rfl := List.eq_nil_of_length_eq_zero length.symm
    simp
  | cons b bs ih =>
    obtain ⟨c, cs, rfl⟩ := List.exists_cons_of_length_eq_add_one length.symm
    have tails : bs.length = cs.length := Nat.succ.inj length
    have bound := ofBigEndian_lt bs
    have boundAgain := ofBigEndian_lt cs
    rw [← tails] at boundAgain
    rw [ofBigEndian_cons, ofBigEndian_cons, ← tails, mul_add_lt_iff bound boundAgain, ih tails,
      UInt8.toNat_inj, ← UInt8.lt_iff_toNat_lt, List.cons_lt_cons_iff]

/-- Some bit is set at the same place in both. -/
def ShareBit (bs cs : Bytes) : Prop :=
  ∃ pair ∈ bs.zip cs, ∃ bit, pair.1.toNat.testBit bit = true ∧ pair.2.toNat.testBit bit = true

theorem shareBit_cons (b c : UInt8) (bs cs : Bytes) :
    ShareBit (b :: bs) (c :: cs) ↔
      (∃ bit, b.toNat.testBit bit = true ∧ c.toNat.testBit bit = true) ∨ ShareBit bs cs := by
  simp only [ShareBit, List.zip_cons_cons, List.mem_cons, exists_eq_or_imp]

theorem and_mul_add {k a b x y : Nat} (below : x < 2 ^ k) (belowAgain : y < 2 ^ k) :
    (2 ^ k * a + x) &&& (2 ^ k * b + y) = 2 ^ k * (a &&& b) + (x &&& y) := by
  have both : x &&& y < 2 ^ k := Nat.lt_of_le_of_lt Nat.and_le_left below
  apply Nat.eq_of_testBit_eq
  intro j
  rw [Nat.testBit_and, Nat.testBit_two_pow_mul_add _ below, Nat.testBit_two_pow_mul_add _ belowAgain,
    Nat.testBit_two_pow_mul_add _ both]
  split <;> rw [Nat.testBit_and]

theorem and_ne_zero_iff (m n : Nat) :
    m &&& n ≠ 0 ↔ ∃ bit, m.testBit bit = true ∧ n.testBit bit = true := by
  constructor
  · intro nonzero
    obtain ⟨bit, set⟩ := Nat.exists_testBit_of_ne_zero nonzero
    rw [Nat.testBit_and, Bool.and_eq_true] at set
    exact ⟨bit, set⟩
  · rintro ⟨bit, first, second⟩ zero
    have clear : (m &&& n).testBit bit = false := by rw [zero, Nat.zero_testBit]
    rw [Nat.testBit_and, first, second] at clear
    cases clear

theorem ofBigEndian_and_ne_zero_iff {bs cs : Bytes} (length : bs.length = cs.length) :
    ofBigEndian bs &&& ofBigEndian cs ≠ 0 ↔ ShareBit bs cs := by
  induction bs generalizing cs with
  | nil =>
    obtain rfl := List.eq_nil_of_length_eq_zero length.symm
    simp [ShareBit, ofBigEndian, ofLittleEndian]
  | cons b bs ih =>
    obtain ⟨c, cs, rfl⟩ := List.exists_cons_of_length_eq_add_one length.symm
    have tails : bs.length = cs.length := Nat.succ.inj length
    have bound := ofBigEndian_lt bs
    have boundAgain := ofBigEndian_lt cs
    rw [← tails] at boundAgain
    have scale : 2 ^ (8 * bs.length) ≠ 0 := Nat.ne_of_gt (Nat.two_pow_pos _)
    rw [ofBigEndian_cons, ofBigEndian_cons, ← tails, and_mul_add bound boundAgain, shareBit_cons,
      ← and_ne_zero_iff, ← ih tails, ne_eq, Nat.add_eq_zero_iff, Nat.mul_eq_zero, or_iff_right scale]
    exact Decidable.not_and_iff_or_not

end LivePatch
