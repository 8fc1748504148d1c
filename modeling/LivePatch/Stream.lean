import LivePatch.Instruction.Encode

namespace LivePatch.Stream

/-- The code line at `position`, if a whole line is there. -/
def lineAt? (bs : Bytes) (position : Nat) : Option Bytes :=
  if fits (position + 8) bs then some ((bs.drop position).take 8) else none

/-- The stream with a line overwritten, if a whole line is there. -/
def writeLine? (bs : Bytes) (position : Nat) (line : Line) : Option Bytes :=
  if fits (position + 8) bs then some (bs.take position ++ line.toList ++ bs.drop (position + 8))
  else none

/-- Copies `count` bytes from `source` on down to `target` on within the same array, one at a time and
the lowest first. -/
def moveDown (bytes : Array UInt8) (source target : Nat) : Nat → Array UInt8
  | 0 => bytes
  | count + 1 =>
    moveDown (bytes.setIfInBounds target (bytes.getD source 0)) (source + 1) (target + 1) count

/-- The stream without the bytes from `start` up to `stop`, as far as they exist. What comes after them
is moved down over them, and as many bytes are cut off at the end. -/
def removeSpan (bs : Bytes) (start stop : Nat) : Bytes :=
  let stop := min stop bs.length
  let start := min start stop
  let removed := stop - start
  if removed = 0 then bs
  else (moveDown bs.toArray stop start (bs.length - stop)).toList.take (bs.length - removed)

/-- The stream with an instruction of `consumed` bytes replaced by the line that loads `address`. -/
def replaceByPointerLoad (bs : Bytes) (position consumed : Nat) (address : UInt32) : Bytes :=
  removeSpan ((writeLine? bs position (pointerLine address)).getD bs) (position + 8)
    (position + consumed)

/-- Offset of the first occurrence of `pattern`, counted from `offset`. -/
def findFrom? (pattern : Bytes) (offset : Nat) : Bytes → Option Nat
  | [] => if pattern.isEmpty then some offset else none
  | b :: bs => if pattern.isPrefixOf (b :: bs) then some offset else findFrom? pattern (offset + 1) bs

/-- Offset of the first occurrence of `pattern`. -/
def find? (pattern bs : Bytes) : Option Nat :=
  findFrom? pattern 0 bs

/-- Offset of the first occurrence of `pattern` that ends within `distance` bytes. -/
def findWithin? (pattern : Bytes) (distance : Nat) (bs : Bytes) : Option Nat :=
  find? pattern (bs.take distance)

/-- What is read at each move lies above all that has been written, so it is what stood there at the
beginning. -/
theorem toList_moveDown {bytes : Array UInt8} {source target count : Nat} (below : target ≤ source)
    (within : source + count ≤ bytes.size) :
    (moveDown bytes source target count).toList =
      bytes.toList.take target ++ (bytes.toList.drop source).take count ++
        bytes.toList.drop (target + count) := by
  induction count generalizing bytes source target with
  | zero => simp [moveDown]
  | succ count ih =>
    have inside : source < bytes.toList.length := by
      rw [Array.length_toList]
      omega
    have moved : bytes.getD source 0 = bytes.toList[source] := by
      simp [Array.getD_eq_getD_getElem?, show source < bytes.size by omega]
    have front : (bytes.toList.set target bytes.toList[source]).take (target + 1) =
        bytes.toList.take target ++ [bytes.toList[source]] := by
      rw [List.take_succ_eq_append_getElem (by rw [List.length_set]; omega), List.getElem_set_self,
        List.take_set_of_le (Nat.le_refl target)]
    rw [moveDown, ih (by omega) (by rw [Array.size_setIfInBounds]; omega), Array.toList_setIfInBounds,
      moved, front, List.drop_set_of_lt (by omega), List.drop_set_of_lt (by omega),
      List.drop_eq_getElem_cons inside, List.take_succ_cons, Nat.add_right_comm target 1 count,
      Nat.add_assoc target count 1]
    simp only [List.append_assoc, List.cons_append, List.nil_append]

theorem removeSpan_eq (bs : Bytes) (start stop : Nat) :
    removeSpan bs start stop =
      bs.take (min start (min stop bs.length)) ++ bs.drop (min stop bs.length) := by
  have upper : min stop bs.length ≤ bs.length := Nat.min_le_right _ _
  have lower : min start (min stop bs.length) ≤ min stop bs.length := Nat.min_le_right _ _
  simp only [removeSpan]
  generalize min stop bs.length = stop at *
  generalize min start stop = start at *
  split
  · rename_i nothing
    rw [show start = stop by omega, List.take_append_drop]
  · have tail : (bs.drop stop).take (bs.length - stop) = bs.drop stop :=
      List.take_of_length_le (Nat.le_of_eq List.length_drop)
    rw [toList_moveDown lower (by rw [List.size_toArray]; omega), List.toList_toArray, tail]
    refine List.take_left' ?_
    rw [List.length_append, List.length_take, List.length_drop]
    omega

/-- What stands before a span stays. -/
theorem take_prefix_removeSpan (bs : Bytes) (start stop : Nat) :
    bs.take start <+: removeSpan bs start stop := by
  rw [removeSpan_eq]
  by_cases reversed : min stop bs.length ≤ start
  · rw [Nat.min_eq_right reversed, List.take_append_drop]
    exact List.take_prefix start bs
  · rw [Nat.min_eq_left (by omega)]
    exact List.prefix_append _ _

theorem length_removeSpan_le (bs : Bytes) (start stop : Nat) :
    (removeSpan bs start stop).length ≤ bs.length := by
  rw [removeSpan_eq, List.length_append, List.length_take, List.length_drop]
  omega

theorem writeLine?_of_le {bs : Bytes} {position : Nat} (line : Line)
    (enough : position + 8 ≤ bs.length) :
    writeLine? bs position line =
      some (bs.take position ++ line.toList ++ bs.drop (position + 8)) :=
  if_pos ((fits_iff _ _).mpr enough)

theorem writeLine?_of_lt {bs : Bytes} {position : Nat} (line : Line)
    (short : bs.length < position + 8) : writeLine? bs position line = none :=
  if_neg (by rw [fits_iff]; omega)

end LivePatch.Stream
