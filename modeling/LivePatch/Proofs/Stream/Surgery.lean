import LivePatch.Machine.Tape
import LivePatch.Proofs.Wire.RoundTrip

namespace LivePatch

namespace Stream

theorem lineAt?_eq_some_iff {bs line : Bytes} {position : Nat} :
    lineAt? bs position = some line ↔
      position + 8 ≤ bs.length ∧ (bs.drop position).take 8 = line := by
  unfold lineAt?
  rw [← fits_iff, Option.ite_none_right_eq_some, Option.some.injEq]

theorem isSome_lineAt?_iff {bs : Bytes} {position : Nat} :
    (lineAt? bs position).isSome ↔ position + 8 ≤ bs.length := by
  rw [lineAt?, Option.isSome_ite, fits_iff]

theorem isSome_writeLine?_iff {bs : Bytes} {position : Nat} {line : Line} :
    (writeLine? bs position line).isSome ↔ position + 8 ≤ bs.length := by
  rw [writeLine?, Option.isSome_ite, fits_iff]

/-- `after` is `bs` with `line` at `position`. -/
structure Overwritten (bs : Bytes) (position : Nat) (line : Line) (after : Bytes) : Prop where
  length_eq : after.length = bs.length
  there : lineAt? after position = some line.toList
  elsewhere : ∀ k, k < position ∨ position + 8 ≤ k → after[k]? = bs[k]?

namespace Overwritten

variable {bs after other : Bytes} {position : Nat} {line : Line}

theorem getElem?_there (written : Overwritten bs position line after) {j : Nat} (inside : j < 8) :
    after[position + j]? = line.toList[j]? := by
  obtain ⟨_, stands⟩ := lineAt?_eq_some_iff.mp written.there
  rw [← stands, List.getElem?_take_of_lt inside, List.getElem?_drop]

theorem unique (written : Overwritten bs position line after)
    (again : Overwritten bs position line other) : after = other := by
  apply List.ext_getElem?
  intro k
  by_cases outside : k < position ∨ position + 8 ≤ k
  · rw [written.elsewhere k outside, again.elsewhere k outside]
  · obtain ⟨j, rfl⟩ : ∃ j, k = position + j := ⟨k - position, by omega⟩
    rw [written.getElem?_there (by omega), again.getElem?_there (by omega)]

end Overwritten

theorem overwritten_splice {bs : Bytes} {position : Nat} (line : Line)
    (enough : position + 8 ≤ bs.length) :
    Overwritten bs position line (bs.take position ++ line.toList ++ bs.drop (position + 8)) := by
  have before : (bs.take position).length = position := List.length_take_of_le (by omega)
  have upTo : (bs.take position ++ line.toList).length = position + 8 := by
    rw [List.length_append, before, Vector.length_toList]
  have same : (bs.take position ++ line.toList ++ bs.drop (position + 8)).length = bs.length := by
    rw [List.length_append, upTo, List.length_drop]
    omega
  refine ⟨same, lineAt?_eq_some_iff.mpr ⟨by omega, ?_⟩, ?_⟩
  · rw [List.append_assoc, List.drop_left' before, List.take_left' line.length_toList]
  · rintro k (below | above)
    · rw [List.append_assoc, List.getElem?_append_left (by omega), List.getElem?_take_of_lt below]
    · rw [List.getElem?_append_right (by omega), upTo, List.getElem?_drop,
        Nat.add_sub_cancel' above]

theorem writeLine?_eq_some_iff {bs after : Bytes} {position : Nat} {line : Line} :
    writeLine? bs position line = some after ↔ Overwritten bs position line after := by
  constructor
  · intro written
    have enough := isSome_writeLine?_iff.mp (Option.isSome_of_eq_some written)
    rw [writeLine?_of_le line enough] at written
    rw [← Option.some.inj written]
    exact overwritten_splice line enough
  · intro written
    obtain ⟨enough, _⟩ := lineAt?_eq_some_iff.mp written.there
    rw [written.length_eq] at enough
    rw [writeLine?_of_le line enough, (overwritten_splice line enough).unique written]

/-- A span that begins at its end, or behind it, holds nothing. -/
theorem removeSpan_of_le {bs : Bytes} {start stop : Nat} (reversed : min stop bs.length ≤ start) :
    removeSpan bs start stop = bs := by
  rw [removeSpan_eq, Nat.min_eq_right reversed, List.take_append_drop]

theorem replaceByPointerLoad_of_le {bs : Bytes} {position consumed : Nat} (address : UInt32)
    (line : 8 ≤ consumed) (within : position + consumed ≤ bs.length) :
    replaceByPointerLoad bs position consumed address =
      bs.take position ++ (pointerLine address).toList ++ bs.drop (position + consumed) := by
  have front : (bs.take position ++ (pointerLine address).toList).length = position + 8 := by
    rw [List.length_append, List.length_take_of_le (by omega), Vector.length_toList]
  have size := (overwritten_splice (pointerLine address) (by omega : position + 8 ≤ bs.length)).length_eq
  unfold replaceByPointerLoad
  rw [writeLine?_of_le _ (by omega), Option.getD_some, removeSpan_eq, size,
    Nat.min_eq_left within, Nat.min_eq_left (by omega), List.take_left' front, List.drop_append,
    List.drop_eq_nil_of_le (by omega), front, List.nil_append, List.drop_drop,
    show position + 8 + (position + consumed - (position + 8)) = position + consumed by omega]

/-- A line is written if and only if a whole line stands there; it then stands there, and every other byte
is what it was. A span is cut out as far as it lies within the stream. A search anywhere in the stream
gives way to a line that loads the pointer, right before what followed the search. -/
theorem surgery_splices_bytes (bs : Bytes) :
    (∀ (position : Nat) (line : Line),
      ((writeLine? bs position line).isSome ↔ (lineAt? bs position).isSome) ∧
      (∀ after, writeLine? bs position line = some after ↔ Overwritten bs position line after) ∧
      (lineAt? bs position = none → (writeLine? bs position line).getD bs = bs)) ∧
    (∀ start stop : Nat,
      removeSpan bs start stop =
          bs.take (min start (min stop bs.length)) ++ bs.drop (min stop bs.length) ∧
        (min stop bs.length ≤ start → removeSpan bs start stop = bs)) ∧
    ∀ (position consumed : Nat) (template : Bytes) (index startHigh stopHigh : UInt16)
        (address : UInt32),
      decode (bs.drop position) = .ok (.search template index startHigh stopHigh, consumed) →
      let after := replaceByPointerLoad bs position consumed address
      after = bs.take position ++ (pointerLine address).toList ++ bs.drop (position + consumed) ∧
        decode (after.drop position) = .ok (.setPointer address, 8) := by
  refine ⟨?_, ?_, ?_⟩
  · intro position line
    refine ⟨by rw [isSome_writeLine?_iff, isSome_lineAt?_iff], fun after => writeLine?_eq_some_iff, ?_⟩
    intro noLine
    have short : ¬ position + 8 ≤ bs.length := by
      rw [← isSome_lineAt?_iff, noLine]
      exact Bool.noConfusion
    rw [writeLine?_of_lt line (by omega), Option.getD_none]
  · intro start stop
    exact ⟨removeSpan_eq bs start stop, removeSpan_of_le⟩
  · intro position consumed template index startHigh stopHigh address decoded after
    obtain ⟨line, _, within⟩ := Instruction.consumed_of_decode decoded
    rw [List.length_drop] at within
    have replaced := replaceByPointerLoad_of_le address line (by omega : position + consumed ≤ bs.length)
    have before : (bs.take position).length = position := List.length_take_of_le (by omega)
    refine ⟨replaced, ?_⟩
    rw [show after = _ from replaced, List.append_assoc, List.drop_left' before]
    exact decode_pointerLine address _

/-- A search between two other lines. A line written at the end of the address space, and a span that ends
before it begins, leave the stream alone. -/
theorem surgery_splices_bytes_search :
    let search := Instruction.search [0xDE, 0xAD, 0xBE] 1 0x8000 0x8001
    let bs := Instruction.noOperation.encode ++ search.encode ++ terminatorLine.toList
    decode (bs.drop 8) = .ok (search, 16) ∧
      replaceByPointerLoad bs 8 16 0x80000100 =
        Instruction.noOperation.encode ++ (pointerLine 0x80000100).toList ++ terminatorLine.toList ∧
      decode ((replaceByPointerLoad bs 8 16 0x80000100).drop 8) = .ok (.setPointer 0x80000100, 8) ∧
      (writeLine? bs 0xFFFFFFFFFFFFFFFC terminatorLine).getD bs = bs ∧
      removeSpan bs 20 12 = bs := by
  intro search bs
  have decoded : decode (bs.drop 8) = .ok (search, 16) :=
    Instruction.decode_encode_append (i := search) rfl terminatorLine.toList
  obtain ⟨written, cut, replaced⟩ := surgery_splices_bytes bs
  obtain ⟨spliced, loads⟩ := replaced 8 16 _ _ _ _ 0x80000100 decoded
  exact ⟨decoded, spliced, loads, (written 0xFFFFFFFFFFFFFFFC terminatorLine).2.2 (by decide),
    (cut 20 12).2 (by decide)⟩

end Stream

end LivePatch
