import LivePatch.Proofs.Program.Sweep
import LivePatch.Proofs.Wire.BigEndian
import LivePatch.Proofs.Wire.Layout

namespace LivePatch

namespace Field

/-- Both hold the same in everything that the field is read from. Where any of several widths is
accepted none is read, so the lower half of the mode byte may differ. -/
def Agree (bs cs : Bytes) : Field → Prop
  | number offset size _ => (bs.drop offset).take size = (cs.drop offset).take size
  | addressing _ => bs[1]?.map upperNibble = cs[1]?.map upperNibble
  | width [_] => bs[1]?.map lowerNibble = cs[1]?.map lowerNibble
  | width _ => True
  | payload offset size _ bytes =>
    (bs.drop offset).take size = (cs.drop offset).take size ∧
      (bs.drop 8).take bytes.length = (cs.drop 8).take bytes.length

instance (bs cs : Bytes) (f : Field) : Decidable (f.Agree bs cs) :=
  match f with
  | .number .. | .addressing _ | .width [_] => inferInstanceAs (Decidable (_ = _))
  | .width [] | .width (_ :: _ :: _) => inferInstanceAs (Decidable True)
  | .payload .. => inferInstanceAs (Decidable (_ ∧ _))

/-- A number stands in the same bytes wherever it stands. -/
theorem bytes_eq_of_numberAt {bs cs : Bytes} {offset size : Nat} (length : bs.length = cs.length)
    (same : numberAt bs offset size = numberAt cs offset size) :
    (bs.drop offset).take size = (cs.drop offset).take size := by
  refine ofBigEndian_inj ?_ same
  simp only [List.length_take, List.length_drop, length]

theorem exists_mode {bs : Bytes} (line : 8 ≤ bs.length) : ∃ b mode rest, bs = b :: mode :: rest := by
  match bs, line with
  | b :: mode :: rest, _ => exact ⟨b, mode, rest, rfl⟩

/-- What holds the same field agrees in it. -/
theorem In.agree {f : Field} {bs cs : Bytes} (length : bs.length = cs.length) (line : 8 ≤ bs.length)
    (units : ∀ offset size bytes, f ≠ payload offset size 0 bytes) (held : f.In bs)
    (heldAgain : f.In cs) : f.Agree bs cs := by
  cases f with
  | number offset size value => exact bytes_eq_of_numberAt length (held.trans heldAgain.symm)
  | addressing a =>
    obtain ⟨b, mode, rest, rfl⟩ := exists_mode line
    obtain ⟨c, modeAgain, restAgain, rfl⟩ := exists_mode (length ▸ line)
    rw [addressing_in] at held heldAgain
    exact congrArg some (held.trans heldAgain.symm)
  | width allowed =>
    obtain ⟨b, mode, rest, rfl⟩ := exists_mode line
    obtain ⟨c, modeAgain, restAgain, rfl⟩ := exists_mode (length ▸ line)
    rw [width_in] at held heldAgain
    match allowed with
    | [] | _ :: _ :: _ => trivial
    | [w] =>
      simp only [List.mem_singleton, exists_eq_left] at held heldAgain
      exact congrArg some (held.trans heldAgain.symm)
  | payload offset size unit bytes =>
    have positive : 0 < unit := Nat.pos_of_ne_zero fun zero => units offset size bytes (by rw [zero])
    have counted := Nat.eq_of_mul_eq_mul_right positive (held.1.trans heldAgain.1.symm)
    refine ⟨bytes_eq_of_numberAt length counted, ?_⟩
    rw [← List.prefix_iff_eq_take.mp held.2, ← List.prefix_iff_eq_take.mp heldAgain.2]

/-- What agrees with bytes that hold a field holds it too, unless it is a width, which need not be
read. -/
theorem In.of_agree {f : Field} {bs cs : Bytes} (held : f.In bs) (agree : f.Agree bs cs)
    (length : bs.length = cs.length) (line : 8 ≤ bs.length) (other : ∀ allowed, f ≠ width allowed) :
    f.In cs := by
  cases f with
  | number offset size value =>
    rw [number_in, numberAt, ← agree]
    exact held
  | addressing a =>
    obtain ⟨b, mode, rest, rfl⟩ := exists_mode line
    obtain ⟨c, modeAgain, restAgain, rfl⟩ := exists_mode (length ▸ line)
    rw [addressing_in] at held ⊢
    rw [← held]
    exact (Option.some.inj agree).symm
  | width allowed => exact absurd rfl (other allowed)
  | payload offset size unit bytes =>
    obtain ⟨counts, stands⟩ := agree
    rw [← List.prefix_iff_eq_take.mp held.2] at stands
    refine ⟨?_, ?_⟩
    · rw [numberAt, ← counts]
      exact held.1
    · rw [stands]
      exact List.take_prefix _ _

end Field

namespace Instruction

theorem layout_units {i : Instruction} {f : Field} (member : f ∈ i.layout) (offset size : Nat)
    (bytes : Bytes) : f ≠ .payload offset size 0 bytes := by
  rintro rfl
  cases i with
  | integerArithmetic _ _ source | floatArithmetic _ _ source =>
    cases source <;> simp [layout, sourceField] at member
  | _ => simp [layout, operandFields, argumentFields] at member

theorem laid_of_decode {bs : Bytes} {i : Instruction} {n : Nat} (decoded : decode bs = .ok (i, n)) :
    i.Laid (bs.take i.encodedLength) := by
  obtain ⟨front, tail, rfl, image, _⟩ := decode_eq_ok_iff_image.mp decoded
  rw [← image.length_eq, List.take_left]
  exact laid_iff_image.mpr image

/-- What is decoded keeps the limits and takes the bytes that it is encoded in. -/
theorem fits_of_decode {bs : Bytes} {i : Instruction} {n : Nat} (decoded : decode bs = .ok (i, n)) :
    i.misfit? = none ∧ i.normalized = i ∧ n = i.encodedLength := by
  obtain ⟨front, tail, rfl, image, rfl⟩ := decode_eq_ok_iff_image.mp decoded
  exact ⟨image.fits, normalized_of_countsArguments image.countsArguments, image.length_eq⟩

theorem Laid.decode_append {i : Instruction} {bs : Bytes} (laid : i.Laid bs) (tail : Bytes) :
    decode (bs ++ tail) = .ok (i, bs.length) :=
  (laid_iff_image.mp laid).decode_append tail

theorem Laid.eight_le_length {i : Instruction} {bs : Bytes} (laid : i.Laid bs) : 8 ≤ bs.length := by
  rw [laid.length]
  exact i.eight_le_encodedLength

theorem Laid.agree {i : Instruction} {bs cs : Bytes} (laid : i.Laid bs) (again : i.Laid cs) :
    ∀ f ∈ i.layout, f.Agree bs cs := by
  intro f member
  exact Field.In.agree (laid.length.trans again.length.symm) laid.eight_le_length (layout_units member)
    (laid.fields f member) (again.fields f member)

theorem Laid.of_agree {i : Instruction} {bs cs : Bytes} (laid : i.Laid bs)
    (length : bs.length = cs.length) (agree : ∀ f ∈ i.layout, f.Agree bs cs)
    (sized : ∀ allowed, .width allowed ∈ i.layout → (Field.width allowed).In cs) : i.Laid cs := by
  refine ⟨length.symm.trans laid.length, laid.counted, ?_⟩
  intro f member
  by_cases wide : ∃ allowed, f = .width allowed
  · obtain ⟨allowed, rfl⟩ := wide
    exact sized allowed member
  · exact (laid.fields f member).of_agree (agree f member) length laid.eight_le_length
      fun allowed same => wide ⟨allowed, same⟩

end Instruction

namespace Swept

variable {offset : Nat} {bs : Bytes} {ls : List Located}

theorem decode_drop (swept : Swept offset bs ls) :
    ∀ l ∈ ls, ∃ k n, l.offset = offset + k ∧ decode (bs.drop k) = .ok (l.instruction, n) := by
  induction swept with
  | done => simp
  | @found offset n bs i ls decoded _ ih =>
    rw [List.forall_mem_cons]
    refine ⟨⟨0, n, rfl, decoded⟩, ?_⟩
    intro l member
    obtain ⟨k, m, place, later⟩ := ih l member
    refine ⟨n + k, m, by omega, ?_⟩
    rwa [← List.drop_drop]

theorem length_eq (swept : Swept offset bs ls) :
    bs.length = (ls.map (·.instruction.encodedLength)).sum := by
  induction swept with
  | done => rfl
  | @found offset n bs i ls decoded _ ih =>
    have inside := Instruction.consumed_of_decode decoded
    rw [List.map_cons, List.sum_cons, ← ih, List.length_drop, ← (Instruction.fits_of_decode decoded).2.2]
    omega

theorem fits (swept : Swept offset bs ls) : ∀ l ∈ ls, l.instruction.misfit? = none := by
  intro l member
  exact (Instruction.fits_of_decode (swept.decoded l member)).1

/-- The instructions of a sweep, assembled again, are found where they were. -/
theorem map_located (swept : Swept offset bs ls) :
    (Program.located offset (ls.map (·.instruction))).map Located.place = ls.map Located.place := by
  induction swept with
  | done => rfl
  | @found offset n bs i ls decoded _ ih =>
    obtain ⟨_, normal, size⟩ := Instruction.fits_of_decode decoded
    rw [List.map_cons, Program.located, ← size, List.map_cons, ih, List.map_cons, normal]
    rfl

end Swept

theorem decode_drop_of_instructions {s : Bytes} {places : List (Nat × Instruction)}
    (listed : instructions s = .ok places) :
    ∀ place ∈ places, ∃ n, decode (s.drop place.1) = .ok (place.2, n) := by
  obtain ⟨ls, swept, rfl⟩ := instructions_eq_ok_iff.mp listed
  intro place member
  obtain ⟨l, there, rfl⟩ := List.mem_map.mp member
  obtain ⟨k, n, offset, decoded⟩ := swept.decode_drop l there
  rw [Nat.zero_add] at offset
  exact ⟨n, by rwa [Located.place, offset]⟩

/-- The bytes of a stream that the instruction at a place takes. -/
def bytesAt (s : Bytes) (place : Nat × Instruction) : Bytes :=
  (s.drop place.1).take place.2.encodedLength

/-- Streams of the same instructions are equally long and agree in all their fields. -/
theorem agree_of_instructions {s t : Bytes} {places : List (Nat × Instruction)}
    (listed : instructions s = .ok places) (again : instructions t = .ok places) :
    s.length = t.length ∧
      ∀ place ∈ places, ∀ f ∈ place.2.layout, f.Agree (bytesAt s place) (bytesAt t place) := by
  have length (r : Bytes) (listed : instructions r = .ok places) :
      r.length = (places.map (·.2.encodedLength)).sum := by
    obtain ⟨ls, swept, rfl⟩ := instructions_eq_ok_iff.mp listed
    rw [swept.length_eq, List.map_map]
    rfl
  refine ⟨(length s listed).trans (length t again).symm, ?_⟩
  intro place member
  obtain ⟨m, decoded⟩ := decode_drop_of_instructions listed place member
  obtain ⟨n, decodedAgain⟩ := decode_drop_of_instructions again place member
  exact (Instruction.laid_of_decode decoded).agree (Instruction.laid_of_decode decodedAgain)

/-- The stream assembled from the instructions that a sweep finds. -/
def canonical? (s : Bytes) : Option Bytes :=
  match instructions s with
  | .ok places => (assemble (places.map (·.2))).toOption
  | .error _ => none

theorem canonical?_eq {s code : Bytes} {places : List (Nat × Instruction)}
    (listed : instructions s = .ok places) (assembled : assemble (places.map (·.2)) = .ok code) :
    canonical? s = some code := by
  rw [canonical?, listed]
  simp only [assembled]
  rfl

/-- The instructions of a stream are assembled into a stream of the same length, which has them at the
same offsets, is its own canonical stream and agrees with the first in every field. What is decoded at
all keeps the limits and takes the bytes that it is encoded in; bytes that agree with those in every
field, and name a width where one is asked for, are decoded alike. -/
theorem canonical_stream (s : Bytes) :
    (∀ places, instructions s = .ok places → ∃ canon,
      assemble (places.map (·.2)) = .ok canon ∧ canon.length = s.length ∧
      instructions canon = .ok places ∧ canonical? canon = some canon ∧
      ∀ place ∈ places, ∀ f ∈ place.2.layout, f.Agree (bytesAt s place) (bytesAt canon place)) ∧
    ∀ i n, decode s = .ok (i, n) →
      i.misfit? = none ∧ n = i.encodedLength ∧ 0 < n ∧ n % 8 = 0 ∧
      ∀ bs tail : Bytes, bs.length = n → (∀ f ∈ i.layout, f.Agree (s.take n) bs) →
        (∀ allowed, .width allowed ∈ i.layout → (Field.width allowed).In bs) →
        decode (bs ++ tail) = .ok (i, n) := by
  constructor
  · intro places listed
    obtain ⟨ls, swept, rfl⟩ := instructions_eq_ok_iff.mp listed
    have program : (ls.map Located.place).map (·.2) = ls.map (·.instruction) := by
      rw [List.map_map]
      rfl
    have keeps : ∀ i ∈ ls.map (·.instruction), i.misfit? = none := by
      simpa using swept.fits
    have again : instructions (Program.stream (ls.map (·.instruction))) = .ok (ls.map Located.place) := by
      refine instructions_eq_ok_iff.mpr ⟨_, Program.swept_stream keeps 0, ?_⟩
      rw [swept.map_located]
    have assembled := assemble_eq_stream keeps
    rw [← program] at assembled again
    obtain ⟨length, agree⟩ := agree_of_instructions listed again
    exact ⟨_, assembled, length.symm, again, canonical?_eq again assembled, agree⟩
  · intro i n decoded
    obtain ⟨line, lines, inside⟩ := Instruction.consumed_of_decode decoded
    obtain ⟨keeps, _, rfl⟩ := Instruction.fits_of_decode decoded
    refine ⟨keeps, rfl, by omega, lines, ?_⟩
    intro bs tail length agree sized
    have laid := Instruction.laid_of_decode decoded
    have again := laid.of_agree (laid.length.trans length.symm) agree sized
    rw [← length]
    exact again.decode_append tail

open Instruction in
/-- A string with something in its padding and a lower half of the mode byte that is no width, then a
closing line with something in its reserved bytes. -/
theorem canonical_stream_padding :
    let front : Bytes := [0x01, 0x1F, 0, 3, 0, 0, 0, 0x20, 0x61, 0x62, 0x63, 9, 9, 9, 9, 9]
    let line : Bytes := [0xD0, 1, 2, 3, 4, 5, 6, 7]
    let string := writeString ⟨.relative, 0x20⟩ [0x61, 0x62, 0x63]
    (instructions (front ++ line) = .ok [(0, string), (16, terminator)] ∧
      ∃ canon, assemble [string, terminator] = .ok canon ∧ canon.length = 24 ∧
        instructions canon = .ok [(0, string), (16, terminator)] ∧ canonical? canon = some canon) ∧
    decode (front ++ line) = .ok (string, 16) ∧ string.misfit? = none ∧
      decode ([0x01, 0x15, 0, 3, 0, 0, 0, 0x20, 0x61, 0x62, 0x63, 1, 2, 3, 4, 5] ++ [0xEE]) =
        .ok (string, 16) := by
  intro front line string
  have written : string.Laid front := by decide
  have closing : terminator.Laid line := by decide
  have decoded := written.decode_append line
  have listed : instructions (front ++ line) = .ok [(0, string), (16, terminator)] := by
    have last : Swept 16 line [⟨16, line, terminator⟩] := .found (closing.decode_append []) .done
    exact instructions_eq_ok_iff.mpr ⟨_, .front decoded rfl last, rfl⟩
  obtain ⟨canon, assembled, length, again, canonical, _⟩ := (canonical_stream (front ++ line)).1 _ listed
  obtain ⟨keeps, _, _, _, alike⟩ := (canonical_stream (front ++ line)).2 string 16 decoded
  refine ⟨⟨listed, canon, assembled, length, again, canonical⟩, decoded, keeps, ?_⟩
  refine alike _ [0xEE] rfl (by decide) ?_
  simp [string, layout]

/-- The mode byte of a float load tells whether its address is relative, but the lower half of it, which
is a width, is not kept. -/
theorem canonical_stream_mode_differs :
    let s : Bytes := [0x12, 0x11, 0, 3, 0, 0, 0, 16]
    let i := Instruction.loadFloat ⟨.relative, 16⟩ 3
    instructions s = .ok [(0, i)] ∧ assemble [i] = .ok [0x12, 0x12, 0, 3, 0, 0, 0, 16] ∧
      decode (s.set 1 0x01) = .ok (.loadFloat ⟨.absolute, 16⟩ 3, 8) := by
  intro s i
  have laid : i.Laid s := by decide
  have other : (Instruction.loadFloat ⟨.absolute, 16⟩ 3).Laid (s.set 1 0x01) := by decide
  have encoded : Program.stream [i] = [0x12, 0x12, 0, 3, 0, 0, 0, 16] := by decide
  refine ⟨?_, ?_, ?_⟩
  · have swept : Swept 0 s [⟨0, s, i⟩] := .found (laid.decode_append []) .done
    exact instructions_eq_ok_iff.mpr ⟨_, swept, rfl⟩
  · rw [← encoded]
    exact assemble_eq_stream (by decide)
  · exact other.decode_append []

end LivePatch
