import LivePatch.Instruction.Advance
import LivePatch.Stream

namespace LivePatch

/-- A stream that is being executed, split at the current position. -/
structure Tape where
  passed : Array UInt8
  rest : Bytes
  /-- Number of bytes in `rest`, kept so that it need not be counted at every instruction. -/
  remaining : Nat
  remaining_eq : remaining = rest.length

namespace Tape

/-- A stream with the position after the bytes in `passed`. -/
def split (passed : Array UInt8) (rest : Bytes) : Tape :=
  ⟨passed, rest, rest.length, rfl⟩

def ofBytes (bs : Bytes) : Tape :=
  split #[] bs

def position (t : Tape) : Nat :=
  t.passed.size

def bytes (t : Tape) : Bytes :=
  t.passed.toList ++ t.rest

def advance (t : Tape) (n : Nat) : Tape where
  passed := t.passed ++ t.rest.take n
  rest := t.rest.drop n
  remaining := t.remaining - n
  remaining_eq := by simp [t.remaining_eq]

/-- Replaces the instruction of `consumed` bytes at the position by a pointer load. -/
def replace (t : Tape) (consumed : Nat) (address : UInt32) : Tape :=
  split t.passed (Stream.replaceByPointerLoad t.rest 0 consumed address)

/-- Falls with every executed instruction: with the bytes that are left, and where none is passed,
because a search has turned into a pointer load. -/
def weight (t : Tape) : Nat :=
  2 * t.rest.length +
    match decode t.rest with
    | .ok (.search .., _) => 1
    | _ => 0

theorem ext {t u : Tape} (passed : t.passed = u.passed) (rest : t.rest = u.rest) : t = u := by
  cases t with
  | mk p r n count =>
    cases u with
    | mk q s m countAgain =>
      cases passed
      cases rest
      cases count
      cases countAgain
      rfl

theorem weight_advance_lt {t : Tape} {n : Nat} (pos : 0 < n) (within : n ≤ t.rest.length) :
    (t.advance n).weight < t.weight := by
  have shorter : (t.advance n).rest.length = t.rest.length - n := by simp [advance]
  unfold weight
  rw [shorter]
  split <;> split <;> omega

theorem weight_advance_le (t : Tape) (n : Nat) : (t.advance n).weight ≤ t.weight := by
  rcases Nat.eq_zero_or_pos n with rfl | pos
  · have same : (t.advance 0).rest = t.rest := by simp [advance]
    exact Nat.le_of_eq (by unfold weight; rw [same])
  · by_cases within : n ≤ t.rest.length
    · exact Nat.le_of_lt (weight_advance_lt pos within)
    · have gone : (t.advance n).rest = [] := by
        simp only [advance, List.drop_eq_nil_iff]
        omega
      unfold weight
      rw [gone]
      exact Nat.zero_le _

end Tape

namespace Stream

theorem length_replaceByPointerLoad_le (bs : Bytes) (consumed : Nat) (address : UInt32) :
    (replaceByPointerLoad bs 0 consumed address).length ≤ bs.length := by
  have written : ((writeLine? bs 0 (pointerLine address)).getD bs).length = bs.length := by
    unfold writeLine?
    split
    · rename_i enough
      have := (fits_iff _ _).mp enough
      simp
      omega
    · rfl
  unfold replaceByPointerLoad
  exact Nat.le_trans (length_removeSpan_le _ _ _) (Nat.le_of_eq written)

theorem toList_pointerLine (address : UInt32) :
    (pointerLine address).toList = [Opcode.setPointer.byte, 0, 0, 0] ++ be32 address := by
  simp [be32, bigEndian, littleEndian, pointerLine, Nat.div_div_eq_div_mul]

/-- A replaced instruction decodes as a pointer load. -/
theorem decode_pointerLine (address : UInt32) (tail : Bytes) :
    decode ((pointerLine address).toList ++ tail) = .ok (.setPointer address, 8) := by
  have loads : decode ([Opcode.setPointer.byte, 0, 0, 0] ++ be32 address ++ tail) =
      .ok (.setPointer (UInt32.ofNat (ofBigEndian (be32 address))), 8) := rfl
  rw [toList_pointerLine, loads, ofBigEndian_be32]

theorem replaceByPointerLoad_eq {bs : Bytes} (consumed : Nat) (address : UInt32)
    (enough : 8 ≤ bs.length) :
    ∃ tail, replaceByPointerLoad bs 0 consumed address = (pointerLine address).toList ++ tail := by
  have written : (writeLine? bs 0 (pointerLine address)).getD bs =
      (pointerLine address).toList ++ bs.drop 8 := by
    rw [writeLine?_of_le _ (by omega)]
    rfl
  unfold replaceByPointerLoad
  rw [written]
  have kept := take_prefix_removeSpan ((pointerLine address).toList ++ bs.drop 8) (0 + 8) (0 + consumed)
  rw [List.take_left' (by simp)] at kept
  obtain ⟨tail, split⟩ := kept
  exact ⟨tail, split.symm⟩

end Stream

theorem Tape.weight_replace_lt {t : Tape} {template : Bytes} {index startHigh stopHigh : UInt16}
    {consumed : Nat} (address : UInt32) (enough : 8 ≤ t.rest.length)
    (decoded : decode t.rest = .ok (.search template index startHigh stopHigh, consumed)) :
    (t.replace consumed address).weight < t.weight := by
  have shorter := Stream.length_replaceByPointerLoad_le t.rest consumed address
  obtain ⟨tail, replaced⟩ := Stream.replaceByPointerLoad_eq consumed address enough
  unfold weight
  rw [decoded]
  simp only [replace, split]
  rw [replaced, Stream.decode_pointerLine]
  rw [replaced] at shorter
  simp only
  omega

end LivePatch
