import LivePatch.Proofs.Wire.Image

namespace LivePatch

namespace Reader

theorem control_eq_ok {c c' : Cursor} {count : Nat} {i j : Instruction}
    (run : (do
      skip count
      return i) c = .ok (j, c')) :
    j = i ∧ ∃ spare, c.rest = spare ++ c'.rest ∧ spare.length = count := by
  obtain ⟨_, c₁, skipped, run⟩ := bind_eq_ok run
  cases run
  exact ⟨rfl, skip_eq_ok skipped⟩

theorem controlWord_eq_ok {c c' : Cursor} {make : UInt32 → Instruction} {i : Instruction}
    (run : (do
      skip 3
      return make (← word)) c = .ok (i, c')) :
    ∃ w, i = make w ∧ ∃ spare, c.rest = spare ++ be32 w ++ c'.rest ∧ spare.length = 3 := by
  obtain ⟨_, c₁, skipped, run⟩ := bind_eq_ok run
  obtain ⟨w, c₂, last, run⟩ := bind_eq_ok run
  cases run
  obtain ⟨spare, rest, reserved⟩ := skip_eq_ok skipped
  exact ⟨w, rfl, spare, by rw [rest, word_eq_ok last, List.append_assoc], reserved⟩

theorem registerTransfer_eq_ok {op : Opcode} {c c' : Cursor} {make : Operand → Register → Instruction}
    {i : Instruction} (sized : op.sized = true) (short : op.fixedLength? = some 8)
    (run : (do
      let o ← operand op
      return make o (← lowRegister o.field)) c = .ok (i, c')) :
    ∃ o r, i = make o r ∧ c.rest = modeByte o.target.addressing o.width :: (be16 o.field ++
      be32 o.target.address) ++ c'.rest ∧ lowByte o.field = r.toByte := by
  obtain ⟨o, c₁, first, run⟩ := bind_eq_ok run
  obtain ⟨r, named, run⟩ := register_bind_eq_ok run
  cases run
  refine ⟨o, r, rfl, ?_, named⟩
  rw [operand_eq_ok sized first, Opcode.valueBytes, short]
  simp

theorem instruction_eq_ok {op : Opcode} {c c' : Cursor} {i : Instruction}
    (run : instruction op c = .ok (i, c')) :
    ∃ bs, c.rest = bs ++ c'.rest ∧ i.Image (op.byte :: bs) := by
  cases op with
  | write =>
    obtain ⟨o, c₁, operand, run⟩ := bind_eq_ok run
    obtain ⟨_, c₂, skipped, run⟩ := bind_eq_ok run
    cases run
    obtain ⟨spare, rest, reserved⟩ := skip_eq_ok skipped
    refine ⟨_, ?_, .write o.field reserved⟩
    rw [operand_eq_ok rfl operand, rest]
    simp [Opcode.valueBytes, Opcode.fixedLength?]
  | writeString =>
    obtain ⟨o, c₁, operand, run⟩ := bind_eq_ok run
    obtain ⟨payload, c₂, padded, run⟩ := bind_eq_ok run
    cases run
    obtain ⟨mode, field, base, c₃, rest, run⟩ := head_eq_ok operand
    obtain ⟨addressing, upper, run⟩ := ofExcept_bind_eq_ok run
    cases run
    obtain ⟨length, pad, rest', padding⟩ := paddedBytes_eq_ok padded
    refine ⟨_, ?_, .writeString (Addressing.ofNibble_eq_ok_iff.mp upper) length padding⟩
    rw [rest, rest']
    simp
  | writeSeries =>
    obtain ⟨o, c₁, operand, run⟩ := bind_eq_ok run
    obtain ⟨step, c₂, first, run⟩ := bind_eq_ok run
    obtain ⟨increment, c₃, second, run⟩ := bind_eq_ok run
    obtain ⟨_, c₄, skipped, run⟩ := bind_eq_ok run
    cases run
    obtain ⟨spare, rest, reserved⟩ := skip_eq_ok skipped
    refine ⟨_, ?_, .writeSeries reserved⟩
    rw [operand_eq_ok rfl operand, word_eq_ok first, word_eq_ok second, rest]
    simp [Opcode.valueBytes, Opcode.fixedLength?]
  | fill =>
    obtain ⟨o, c₁, operand, run⟩ := bind_eq_ok run
    obtain ⟨length, c₂, last, run⟩ := bind_eq_ok run
    cases run
    refine ⟨_, ?_, .fill o.width o.field⟩
    rw [operand_eq_ok rfl operand, word_eq_ok last]
    simp [Opcode.valueBytes, Opcode.fixedLength?]
  | test comparison =>
    obtain ⟨p, c₁, both, run⟩ := bind_eq_ok run
    obtain ⟨o, c₂, operand, both⟩ := bind_eq_ok both
    obtain ⟨upper, c₃, last, both⟩ := bind_eq_ok both
    cases both
    cases run
    refine ⟨_, ?_, .test o.field⟩
    rw [operand_eq_ok rfl operand, word_eq_ok last]
    simp [Opcode.valueBytes, Opcode.fixedLength?]
  | timer =>
    obtain ⟨delay, rfl, spare, rest, reserved⟩ := controlWord_eq_ok run
    exact ⟨_, rest, .timer reserved⟩
  | resetTimer =>
    obtain ⟨rfl, spare, rest, reserved⟩ := control_eq_ok run
    exact ⟨spare, rest, .resetTimer reserved⟩
  | loadInteger =>
    obtain ⟨o, register, rfl, rest, named⟩ := registerTransfer_eq_ok rfl rfl run
    exact ⟨_, rest, .loadInteger named⟩
  | storeInteger =>
    obtain ⟨o, register, rfl, rest, named⟩ := registerTransfer_eq_ok rfl rfl run
    exact ⟨_, rest, .storeInteger named⟩
  | loadFloat =>
    obtain ⟨o, register, rfl, rest, named⟩ := registerTransfer_eq_ok rfl rfl run
    exact ⟨_, rest, .loadFloat o.width named⟩
  | storeFloat =>
    obtain ⟨o, register, rfl, rest, named⟩ := registerTransfer_eq_ok rfl rfl run
    exact ⟨_, rest, .storeFloat o.width named⟩
  | integerArithmetic =>
    obtain ⟨o, c₁, operand, run⟩ := bind_eq_ok run
    obtain ⟨mode, field, base, c₂, rest, head⟩ := head_eq_ok operand
    cases head
    obtain ⟨operation, code, run⟩ := ofExcept_bind_eq_ok run
    obtain ⟨destination, named, run⟩ := register_bind_eq_ok run
    obtain ⟨source, second, literal, run⟩ := source_bind_eq_ok run
    cases run
    have image : (Instruction.integerArithmetic operation.arithmetic destination source).Image _ :=
      .integerArithmetic named second
    rw [literal, ← IntegerOperation.ofCode_eq_ok_iff.mp code] at image
    exact ⟨_, rest, image⟩
  | floatArithmetic =>
    obtain ⟨o, c₁, operand, run⟩ := bind_eq_ok run
    obtain ⟨mode, field, base, c₂, rest, head⟩ := head_eq_ok operand
    cases head
    obtain ⟨operation, code, run⟩ := ofExcept_bind_eq_ok run
    have selected := FloatOperation.ofCode_eq_ok_iff.mp code
    cases operation with
    | toInteger =>
      obtain ⟨source, first, run⟩ := register_bind_eq_ok run
      obtain ⟨destination, second, run⟩ := register_bind_eq_ok run
      cases run
      have image := Instruction.Image.floatToInteger base first second
      rw [← selected] at image
      exact ⟨_, rest, image⟩
    | arithmetic a literal =>
      obtain ⟨destination, named, run⟩ := register_bind_eq_ok run
      obtain ⟨source, second, isLiteral, run⟩ := source_bind_eq_ok run
      cases run
      have image : (Instruction.floatArithmetic a destination source).Image _ :=
        .floatArithmetic named second
      rw [isLiteral, ← selected] at image
      exact ⟨_, rest, image⟩
  | loadPointer =>
    obtain ⟨o, c₁, operand, run⟩ := bind_eq_ok run
    obtain ⟨upper, c₂, last, run⟩ := bind_eq_ok run
    cases run
    refine ⟨_, ?_, .loadPointer o.width o.field⟩
    rw [operand_eq_ok rfl operand, word_eq_ok last]
    simp [Opcode.valueBytes, Opcode.fixedLength?]
  | offsetPointer =>
    obtain ⟨offset, rfl, spare, rest, reserved⟩ := controlWord_eq_ok run
    exact ⟨_, rest, .offsetPointer reserved⟩
  | setPointer =>
    obtain ⟨address, rfl, spare, rest, reserved⟩ := controlWord_eq_ok run
    exact ⟨_, rest, .setPointer reserved⟩
  | native =>
    obtain ⟨_, c₁, before, run⟩ := bind_eq_ok run
    obtain ⟨lines, c₂, counted, run⟩ := bind_eq_ok run
    obtain ⟨_, c₃, after, run⟩ := bind_eq_ok run
    obtain ⟨code, c₄, payload, run⟩ := bind_eq_ok run
    cases run
    obtain ⟨first, restFirst, reserved⟩ := skip_eq_ok before
    obtain ⟨second, restSecond, unused⟩ := skip_eq_ok after
    obtain ⟨restCode, length⟩ := bytes_eq_ok payload
    refine ⟨_, ?_, .native reserved unused length⟩
    rw [restFirst, half_eq_ok counted, restSecond, restCode]
    simp
  | systemCall =>
    obtain ⟨_, c₁, before, run⟩ := bind_eq_ok run
    obtain ⟨code, c₂, number, run⟩ := bind_eq_ok run
    obtain ⟨_, c₃, after, run⟩ := bind_eq_ok run
    cases run
    obtain ⟨first, restFirst, reserved⟩ := skip_eq_ok before
    obtain ⟨second, restSecond, unused⟩ := skip_eq_ok after
    refine ⟨_, ?_, .systemCall reserved unused⟩
    rw [restFirst, half_eq_ok number, restSecond]
    simp
  | terminator =>
    obtain ⟨rfl, spare, rest, reserved⟩ := control_eq_ok run
    exact ⟨spare, rest, .terminator reserved⟩
  | noOperation =>
    obtain ⟨rfl, spare, rest, reserved⟩ := control_eq_ok run
    exact ⟨spare, rest, .noOperation reserved⟩
  | timerEnd =>
    obtain ⟨rfl, spare, rest, reserved⟩ := control_eq_ok run
    exact ⟨spare, rest, .timerEnd reserved⟩
  | corrupt =>
    obtain ⟨_, c₁, before, run⟩ := bind_eq_ok run
    obtain ⟨start, c₂, readStart, run⟩ := bind_eq_ok run
    obtain ⟨stop, c₃, readStop, run⟩ := bind_eq_ok run
    obtain ⟨wanted, c₄, readWanted, run⟩ := bind_eq_ok run
    obtain ⟨replacement, c₅, readReplacement, run⟩ := bind_eq_ok run
    obtain ⟨_, c₆, after, run⟩ := bind_eq_ok run
    cases run
    obtain ⟨first, restFirst, reserved⟩ := skip_eq_ok before
    obtain ⟨second, restSecond, unused⟩ := skip_eq_ok after
    refine ⟨_, ?_, .corrupt reserved unused⟩
    rw [restFirst, word_eq_ok readStart, word_eq_ok readStop, word_eq_ok readWanted,
      word_eq_ok readReplacement, restSecond]
    simp
  | search =>
    obtain ⟨length, c₁, first, run⟩ := bind_eq_ok run
    obtain ⟨index, c₂, readIndex, run⟩ := bind_eq_ok run
    obtain ⟨startHigh, c₃, readStart, run⟩ := bind_eq_ok run
    obtain ⟨stopHigh, c₄, readStop, run⟩ := bind_eq_ok run
    obtain ⟨template, c₅, payload, run⟩ := bind_eq_ok run
    cases run
    obtain ⟨counted, pad, rest, padding⟩ := paddedBytes_eq_ok payload
    refine ⟨_, ?_, .search counted padding⟩
    rw [(byte_eq_ok first).1, half_eq_ok readIndex, half_eq_ok readStart, half_eq_ok readStop, rest]
    simp
  | call =>
    obtain ⟨lowByte, c₁, readLow, run⟩ := bind_eq_ok run
    obtain ⟨low, namedLow, run⟩ := register_bind_eq_ok run
    obtain ⟨highByte, c₂, readHigh, run⟩ := bind_eq_ok run
    obtain ⟨high, namedHigh, run⟩ := register_bind_eq_ok run
    obtain ⟨count, c₃, readCount, run⟩ := bind_eq_ok run
    obtain ⟨address, c₄, readAddress, run⟩ := bind_eq_ok run
    obtain ⟨supplied, c₅, readWords, run⟩ := bind_eq_ok run
    obtain ⟨_, c₆, skipped, run⟩ := bind_eq_ok run
    cases run
    obtain ⟨restCount, limit⟩ := argumentCount_eq_ok readCount
    obtain ⟨restWords, counted⟩ := words_eq_ok readWords
    obtain ⟨pad, rest, padding⟩ := skip_eq_ok skipped
    refine ⟨_, ?_, .call limit counted padding⟩
    rw [(byte_eq_ok readLow).1, (byte_eq_ok readHigh).1, restCount, word_eq_ok readAddress, restWords,
      rest, namedLow, namedHigh]
    simp

theorem decode_of_ok (tail : Bytes) {op : Opcode} {rest : Bytes} {i : Instruction} {n : Nat}
    (run : instruction op ⟨1, rest⟩ = .ok (i, ⟨n, tail⟩)) : decode (op.byte :: rest) = .ok (i, n) := by
  unfold decode Cursor.ofBytes
  simp only [byte_cons, Opcode.ofByte?_byte, Nat.zero_add, run]

end Reader

namespace Instruction

open Reader

theorem Image.decode_append {i : Instruction} {bs : Bytes} (image : i.Image bs) (tail : Bytes) :
    decode (bs ++ tail) = .ok (i, bs.length) := by
  have filled (n : Nat) : n + (roundUpToLine n - n) = roundUpToLine n :=
    Nat.add_sub_cancel' (le_roundUpToLine n)
  cases image <;> simp only [encodeLine, List.append_assoc, List.cons_append, List.nil_append] <;>
    refine decode_of_ok tail ?_ <;> rw [Reader.instruction]
  case write field reserved =>
    simp [Except.bind, operand_long .write rfl (by decide), skip_append _ reserved, reserved]
  case writeString addressing length padding =>
    have parsed := Addressing.ofNibble_eq_ok_iff.mpr addressing
    simp [Except.bind, operand, parsed, paddedBytes_append _ length padding, length, padding, filled]
    omega
  case writeSeries reserved =>
    simp [Except.bind, operand_long .writeSeries rfl (by decide), skip_append _ reserved, reserved]
  case fill width field => simp [Except.bind, operand_long .fill rfl (by decide)]
  case test field =>
    simp [Except.bind, testOperand, operand_long (.test .notEqual) rfl (by decide)]
  case timer reserved => simp [Except.bind, skip_append _ reserved, reserved]
  case resetTimer reserved => simp [Except.bind, skip_append _ reserved, reserved]
  case loadInteger named =>
    simp [Except.bind, operand_short .loadInteger rfl (by decide), lowRegister_of named]
  case storeInteger named =>
    simp [Except.bind, operand_short .storeInteger rfl (by decide), lowRegister_of named]
  case loadFloat width named =>
    simp [Except.bind, operand_short .loadFloat rfl (by decide), lowRegister_of named]
  case storeFloat width named =>
    simp [Except.bind, operand_short .storeFloat rfl (by decide), lowRegister_of named]
  case integerArithmetic named second =>
    simp [Except.bind, operand, IntegerOperation.ofCode_eq_ok_iff.mpr rfl, highRegister_of named,
      source_of second]
  case floatArithmetic named second =>
    simp [Except.bind, operand, FloatOperation.ofCode_eq_ok_iff.mpr rfl, highRegister_of named,
      source_of second]
  case floatToInteger base first second =>
    simp [Except.bind, operand, FloatOperation.ofCode_eq_ok_iff.mpr rfl, highRegister_of first,
      lowRegister_of second]
  case loadPointer width field => simp [Except.bind, operand_long .loadPointer rfl (by decide)]
  case offsetPointer reserved => simp [Except.bind, skip_append _ reserved, reserved]
  case setPointer reserved => simp [Except.bind, skip_append _ reserved, reserved]
  case native reserved unused length =>
    simp [Except.bind, skip_append _ reserved, skip_append _ unused, bytes_append _ length, reserved,
      unused, length]
    omega
  case systemCall reserved unused =>
    simp [Except.bind, skip_append _ reserved, skip_append _ unused, reserved, unused]
  case terminator reserved => simp [Except.bind, skip_append _ reserved, reserved]
  case noOperation reserved => simp [Except.bind, skip_append _ reserved, reserved]
  case timerEnd reserved => simp [Except.bind, skip_append _ reserved, reserved]
  case corrupt reserved unused =>
    simp [Except.bind, skip_append _ reserved, skip_append _ unused, reserved, unused]
  case search counted padding =>
    simp [Except.bind, paddedBytes_append _ counted padding, counted, padding, filled]
    omega
  case call limit counted padding =>
    simp [Except.bind, Reader.call, argumentCount_cons _ limit, words_append _ counted,
      skip_append _ padding, length_encodeWords, counted, padding]
    omega

end Instruction

/-- An instruction is decoded exactly where one of its images stands. -/
theorem decode_eq_ok_iff_image {s : Bytes} {i : Instruction} {n : Nat} :
    decode s = .ok (i, n) ↔ ∃ bs tail, s = bs ++ tail ∧ i.Image bs ∧ n = bs.length := by
  constructor
  · intro decoded
    obtain ⟨op, body, tail, rfl, reads, rfl⟩ := decode_eq_ok_iff.mp decoded
    obtain ⟨bs, split, image⟩ := Reader.instruction_eq_ok (reads 0 tail)
    have same := List.append_cancel_right split
    exact ⟨op.byte :: body, tail, rfl, same ▸ image, rfl⟩
  · rintro ⟨bs, tail, rfl, image, rfl⟩
    exact image.decode_append tail

end LivePatch
