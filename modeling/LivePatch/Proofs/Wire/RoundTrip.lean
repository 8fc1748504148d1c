import LivePatch.Proofs.Wire.Decode

namespace LivePatch

theorem roundUpToLine_mod (n : Nat) : roundUpToLine n % 8 = 0 := by
  unfold roundUpToLine
  omega

namespace Instruction

/-- The instruction with the call arguments that it does not supply set to zero. -/
def normalized : Instruction → Instruction
  | call address low high arguments count =>
    call address low high
      (Vector.ofFn fun k => if k.val < count.toNat then arguments.get k else 0) count
  | i => i

theorem encodedLength_normalized (i : Instruction) : i.normalized.encodedLength = i.encodedLength := by
  cases i <;> rfl

theorem misfit?_normalized (i : Instruction) : i.normalized.misfit? = i.misfit? := by
  cases i <;> rfl

theorem callArguments_normalized (i : Instruction) : i.normalized.callArguments = i.callArguments := by
  cases i with
  | call address low high arguments count =>
    apply List.ext_getElem
    · simp [normalized, callArguments]
    · intro k supplied _
      have below : k < count.toNat := by
        simp only [normalized, callArguments, List.length_take] at supplied
        omega
      simp [normalized, callArguments, below, Vector.get]
  | _ => rfl

theorem encodedLength_mod (i : Instruction) : i.encodedLength % 8 = 0 := by
  cases i with
  | writeString _ bytes =>
    have := roundUpToLine_mod bytes.length
    simp only [encodedLength]
    omega
  | native code =>
    have := roundUpToLine_mod code.length
    simp only [encodedLength]
    omega
  | search template =>
    have := roundUpToLine_mod template.length
    simp only [encodedLength]
    omega
  | call _ _ _ _ count =>
    have := roundUpToLine_mod (count.toNat * 4)
    simp only [encodedLength]
    omega
  | _ => simp [encodedLength, opcode, Opcode.fixedLength?]

theorem eight_le_encodedLength (i : Instruction) : 8 ≤ i.encodedLength := by
  cases i with
  | writeString | native | search | call => exact Nat.le_add_right 8 _
  | _ => simp [encodedLength, opcode, Opcode.fixedLength?]

theorem highByte_registerPair (first second : Register) :
    highByte (registerPair first second) = first.toByte := by
  revert first second
  decide

theorem lowByte_registerPair (first second : Register) :
    lowByte (registerPair first second) = second.toByte := by
  revert first second
  decide

theorem lowByte_register (r : Register) : lowByte r.toByte.toUInt16 = r.toByte := by
  revert r
  decide

theorem length_callArguments (address : UInt32) (low high : Register) (arguments : Vector UInt32 8)
    {count : UInt8} (limit : count ≤ 8) :
    (call address low high arguments count).callArguments.length = count.toNat := by
  have bound : count.toNat ≤ 8 := limit
  simp only [callArguments, List.length_take, Vector.length_toList]
  omega

theorem normalized_call {address : UInt32} {low high : Register} {arguments : Vector UInt32 8}
    {count : UInt8} :
    (call address low high arguments count).normalized = call address low high (Vector.ofFn fun k =>
      (call address low high arguments count).callArguments.getD k.val 0) count := by
  simp only [normalized, callArguments]
  congr 2
  funext k
  simp only [List.getD_eq_getElem?_getD, List.getElem?_take]
  split
  · simp only [Vector.getElem?_toList, Fin.is_lt, Vector.getElem?_eq_getElem, Option.getD_some]
    rfl
  · rfl

theorem Image.padding {bs : Bytes} {n : Nat} (length : bs.length = n) :
    (zeros (roundUpToLine bs.length - bs.length)).length = roundUpToLine n - n := by
  rw [zeros, List.length_replicate, length]

theorem image_writeString {target : Target} {bytes : Bytes}
    (keeps : (writeString target bytes).misfit? = none) :
    (writeString target bytes).Image (writeString target bytes).encode := by
  have bound : bytes.length ≤ 65535 := by
    simpa [misfit?] using keeps
  have counted : bytes.length = (UInt16.ofNat bytes.length).toNat := by
    simp only [UInt16.toNat_ofNat']
    omega
  have image := Image.writeString (upperNibble_modeByte target.addressing .byte) counted
    (Image.padding counted)
  simpa [encode, padded] using image

theorem image_search {template : Bytes} {index startHigh stopHigh : UInt16}
    (keeps : (search template index startHigh stopHigh).misfit? = none) :
    (search template index startHigh stopHigh).Image (search template index startHigh stopHigh).encode := by
  have bound : template.length ≤ 255 := by
    simpa [misfit?] using keeps
  have counted : template.length = (UInt8.ofNat template.length).toNat := by
    simp only [UInt8.toNat_ofNat']
    omega
  have image : (search template index startHigh stopHigh).Image _ :=
    .search counted (Image.padding counted)
  simpa [encode, padded] using image

theorem image_native {code : Bytes} (keeps : (native code).misfit? = none) :
    (native code).Image (native code).encode := by
  simp only [misfit?] at keeps
  split at keeps
  · cases keeps
  · rename_i whole
    split at keeps
    · cases keeps
    · rename_i bound
      have filled : roundUpToLine code.length = code.length := by
        unfold roundUpToLine
        omega
      have lines : (UInt16.ofNat (code.length / 8)).toNat = code.length / 8 := by
        simp only [UInt16.toNat_ofNat']
        omega
      have image : (native code).Image _ :=
        .native (rfl : [(0 : UInt8)].length = 1) (length_be32 0)
          (by rw [lines]; omega : code.length = (UInt16.ofNat (code.length / 8)).toNat * 8)
      simpa [encode, encodeLine, padded, filled, zeros] using image

theorem image_call {address : UInt32} {low high : Register} {arguments : Vector UInt32 8} {count : UInt8}
    (keeps : (call address low high arguments count).misfit? = none) :
    (call address low high arguments count).normalized.Image
      (call address low high arguments count).encode := by
  have limit : count ≤ 8 := by
    simpa [misfit?] using keeps
  have counted := length_callArguments address low high arguments limit
  have whole : UInt8.ofNat (call address low high arguments count).callArguments.length = count := by
    rw [counted, UInt8.ofNat_toNat]
  have padding : (if (call address low high arguments count).callArguments.length % 2 = 1 then be32 0
      else []).length = roundUpToLine (count.toNat * 4) - count.toNat * 4 := by
    unfold roundUpToLine
    rw [counted]
    split
    · rw [length_be32]
      omega
    · rw [List.length_nil]
      omega
  rw [normalized_call]
  have image : (call address low high (Vector.ofFn fun k =>
      (call address low high arguments count).callArguments.getD k.val 0) count).Image _ :=
    .call limit counted padding
  simpa [encode, whole] using image

theorem image_encode {i : Instruction} (keeps : i.misfit? = none) : i.normalized.Image i.encode := by
  cases i with
  | writeString target bytes => exact image_writeString keeps
  | native code => exact image_native keeps
  | search template index startHigh stopHigh => exact image_search keeps
  | call address low high arguments count => exact image_call keeps
  | write target width value =>
    simpa [normalized, encode, encodeWords] using Image.write 0 (length_be32 0)
  | writeSeries target width value iterations step increment =>
    simpa [normalized, encode, encodeWords] using Image.writeSeries (length_be32 0)
  | fill target value length =>
    simpa [normalized, encode, encodeWords] using Image.fill .word 0
  | test comparison target width value upper =>
    simpa [normalized, encode, encodeWords] using Image.test 0
  | timer delay => exact .timer (rfl : [(0 : UInt8), 0, 0].length = 3)
  | resetTimer => exact .resetTimer rfl
  | loadInteger target width register => exact .loadInteger (lowByte_register register)
  | storeInteger target width register => exact .storeInteger (lowByte_register register)
  | loadFloat target register => exact .loadFloat .word (lowByte_register register)
  | storeFloat target register => exact .storeFloat .word (lowByte_register register)
  | integerArithmetic arithmetic destination source =>
    cases source with
    | register r =>
      exact .integerArithmetic (highByte_registerPair destination r) (lowByte_registerPair destination r)
    | literal value => exact .integerArithmetic (highByte_registerPair destination 0) rfl
  | floatArithmetic arithmetic destination source =>
    cases source with
    | register r =>
      exact .floatArithmetic (highByte_registerPair destination r) (lowByte_registerPair destination r)
    | literal value => exact .floatArithmetic (highByte_registerPair destination 0) rfl
  | floatToInteger source destination =>
    exact .floatToInteger 0 (highByte_registerPair source destination)
      (lowByte_registerPair source destination)
  | loadPointer target lower upper =>
    simpa [normalized, encode, encodeWords] using Image.loadPointer .word 0
  | offsetPointer offset => exact .offsetPointer (rfl : [(0 : UInt8), 0, 0].length = 3)
  | setPointer address => exact .setPointer (rfl : [(0 : UInt8), 0, 0].length = 3)
  | systemCall code => exact .systemCall (rfl : [(0 : UInt8)].length = 1) (length_be32 0)
  | terminator => exact .terminator rfl
  | noOperation => exact .noOperation rfl
  | timerEnd => exact .timerEnd rfl
  | corrupt start stop wanted replacement =>
    have image : (corrupt start stop wanted replacement).Image _ :=
      .corrupt (rfl : (0 :: be16 0).length = 3) (length_be32 0)
    simpa [normalized, encode, encodeLine, encodeWords] using image

theorem decode_encode_append {i : Instruction} (keeps : i.misfit? = none) (tail : Bytes) :
    decode (i.encode ++ tail) = .ok (i.normalized, i.encodedLength) := by
  have image := image_encode keeps
  rw [image.decode_append, image.length_eq, encodedLength_normalized]

theorem length_encode {i : Instruction} (keeps : i.misfit? = none) :
    i.encode.length = i.encodedLength := by
  rw [(image_encode keeps).length_eq, encodedLength_normalized]

/-- A decoded instruction takes a positive number of whole lines, all of them there. -/
theorem consumed_of_decode {bs : Bytes} {i : Instruction} {n : Nat} (decoded : decode bs = .ok (i, n)) :
    8 ≤ n ∧ n % 8 = 0 ∧ n ≤ bs.length := by
  obtain ⟨image, tail, rfl, shape, rfl⟩ := decode_eq_ok_iff_image.mp decoded
  rw [List.length_append, shape.length_eq]
  exact ⟨i.eight_le_encodedLength, i.encodedLength_mod, Nat.le_add_right _ _⟩

/-- An instruction comes back from its encoding if and only if it keeps its limits; then it does so in
front of any bytes, and occupies the whole lines that it states. -/
theorem survives_exactly_within_limits (i : Instruction) :
    (i.misfit? = none →
      (∀ tail, decode (i.encode ++ tail) = .ok (i.normalized, i.encodedLength)) ∧
        i.encode.length = i.encodedLength ∧ 0 < i.encodedLength ∧ i.encodedLength % 8 = 0) ∧
      ∀ misfit, i.misfit? = some misfit → ∀ n, decode i.encode ≠ .ok (i.normalized, n) := by
  constructor
  · intro keeps
    have positive := i.eight_le_encodedLength
    exact ⟨decode_encode_append keeps, length_encode keeps, by omega, i.encodedLength_mod⟩
  · intro misfit breaks n decoded
    obtain ⟨bs, tail, _, image, _⟩ := decode_eq_ok_iff_image.mp decoded
    have keeps := image.fits
    rw [misfit?_normalized, breaks] at keeps
    cases keeps

/-- A call that holds arguments it does not supply, and native code that ends inside a line. -/
theorem survives_call_not_partial_code :
    ((call 0x80001000 3 4 #v[1, 2, 3, 9, 9, 9, 9, 9] 3).misfit? = none ∧
      ∀ tail, decode ((call 0x80001000 3 4 #v[1, 2, 3, 9, 9, 9, 9, 9] 3).encode ++ tail) =
        .ok (call 0x80001000 3 4 #v[1, 2, 3, 0, 0, 0, 0, 0] 3, 24)) ∧
      (native [1]).misfit? = some (.partialCodeLine 1) ∧
        ∀ n, decode (native [1]).encode ≠ .ok (native [1], n) := by
  have kept : (call 0x80001000 3 4 #v[1, 2, 3, 9, 9, 9, 9, 9] 3).misfit? = none := by decide
  have broken : (native [1]).misfit? = some (.partialCodeLine 1) := by decide
  exact ⟨⟨kept, ((survives_exactly_within_limits _).1 kept).1⟩, broken,
    (survives_exactly_within_limits _).2 _ broken⟩

end Instruction

end LivePatch
