import LivePatch.Proofs.Wire.Reading

namespace LivePatch

namespace Instruction

/-- `i.Image bs`: the bytes `bs` are an image of `i`. Bytes that no field of the instruction depends on
are arbitrary. -/
inductive Image : Instruction → Bytes → Prop
  | write {target : Target} {width : Width} {value : UInt32} (field : UInt16) {spare : Bytes}
      (reserved : spare.length = 4) :
      Image (.write target width value)
        (encodeLine .write (modeByte target.addressing width) field target.address ++ be32 value ++
          spare)
  | writeString {target : Target} {bytes : Bytes} {mode : UInt8} {field : UInt16} {pad : Bytes}
      (addressing : upperNibble mode = target.addressing.nibble) (length : bytes.length = field.toNat)
      (padding : pad.length = roundUpToLine field.toNat - field.toNat) :
      Image (.writeString target bytes)
        (encodeLine .writeString mode field target.address ++ bytes ++ pad)
  | writeSeries {target : Target} {width : Width} {value : UInt32} {iterations : UInt16}
      {step increment : UInt32} {spare : Bytes} (reserved : spare.length = 4) :
      Image (.writeSeries target width value iterations step increment)
        (encodeLine .writeSeries (modeByte target.addressing width) iterations target.address ++
          be32 value ++ be32 step ++ be32 increment ++ spare)
  | fill {target : Target} {value length : UInt32} (width : Width) (field : UInt16) :
      Image (.fill target value length)
        (encodeLine .fill (modeByte target.addressing width) field target.address ++ be32 value ++
          be32 length)
  | test {comparison : Comparison} {target : Target} {width : Width} {value upper : UInt32}
      (field : UInt16) :
      Image (.test comparison target width value upper)
        (encodeLine (.test comparison) (modeByte target.addressing width) field target.address ++
          be32 value ++ be32 upper)
  | timer {delay : UInt32} {spare : Bytes} (reserved : spare.length = 3) :
      Image (.timer delay) (Opcode.timer.byte :: (spare ++ be32 delay))
  | resetTimer {spare : Bytes} (reserved : spare.length = 7) :
      Image .resetTimer (Opcode.resetTimer.byte :: spare)
  | loadInteger {target : Target} {width : Width} {register : Register} {field : UInt16}
      (named : lowByte field = register.toByte) :
      Image (.loadInteger target width register)
        (encodeLine .loadInteger (modeByte target.addressing width) field target.address)
  | storeInteger {target : Target} {width : Width} {register : Register} {field : UInt16}
      (named : lowByte field = register.toByte) :
      Image (.storeInteger target width register)
        (encodeLine .storeInteger (modeByte target.addressing width) field target.address)
  | loadFloat {target : Target} (width : Width) {register : Register} {field : UInt16}
      (named : lowByte field = register.toByte) :
      Image (.loadFloat target register)
        (encodeLine .loadFloat (modeByte target.addressing width) field target.address)
  | storeFloat {target : Target} (width : Width) {register : Register} {field : UInt16}
      (named : lowByte field = register.toByte) :
      Image (.storeFloat target register)
        (encodeLine .storeFloat (modeByte target.addressing width) field target.address)
  | integerArithmetic {arithmetic : Arithmetic} {destination : Register} {source : Source}
      {field : UInt16} {base : UInt32} (named : highByte field = destination.toByte)
      (second : source.In field base) :
      Image (.integerArithmetic arithmetic destination source)
        (encodeLine .integerArithmetic (IntegerOperation.code ⟨arithmetic, source.isLiteral⟩) field base)
  | floatArithmetic {arithmetic : Arithmetic} {destination : Register} {source : Source}
      {field : UInt16} {base : UInt32} (named : highByte field = destination.toByte)
      (second : source.In field base) :
      Image (.floatArithmetic arithmetic destination source)
        (encodeLine .floatArithmetic (FloatOperation.code (.arithmetic arithmetic source.isLiteral))
          field base)
  | floatToInteger {source destination : Register} {field : UInt16} (base : UInt32)
      (first : highByte field = source.toByte) (second : lowByte field = destination.toByte) :
      Image (.floatToInteger source destination)
        (encodeLine .floatArithmetic FloatOperation.toInteger.code field base)
  | loadPointer {target : Target} {lower upper : UInt32} (width : Width) (field : UInt16) :
      Image (.loadPointer target lower upper)
        (encodeLine .loadPointer (modeByte target.addressing width) field target.address ++
          be32 lower ++ be32 upper)
  | offsetPointer {offset : Int32} {spare : Bytes} (reserved : spare.length = 3) :
      Image (.offsetPointer offset) (Opcode.offsetPointer.byte :: (spare ++ be32 offset.toUInt32))
  | setPointer {address : UInt32} {spare : Bytes} (reserved : spare.length = 3) :
      Image (.setPointer address) (Opcode.setPointer.byte :: (spare ++ be32 address))
  | native {code : Bytes} {lines : UInt16} {first second : Bytes} (reserved : first.length = 1)
      (unused : second.length = 4) (length : code.length = lines.toNat * 8) :
      Image (.native code) (Opcode.native.byte :: (first ++ be16 lines ++ second ++ code))
  | systemCall {code : UInt16} {first second : Bytes} (reserved : first.length = 1)
      (unused : second.length = 4) :
      Image (.systemCall code) (Opcode.systemCall.byte :: (first ++ be16 code ++ second))
  | terminator {spare : Bytes} (reserved : spare.length = 7) :
      Image .terminator (Opcode.terminator.byte :: spare)
  | noOperation {spare : Bytes} (reserved : spare.length = 7) :
      Image .noOperation (Opcode.noOperation.byte :: spare)
  | timerEnd {spare : Bytes} (reserved : spare.length = 7) :
      Image .timerEnd (Opcode.timerEnd.byte :: spare)
  | corrupt {start stop wanted replacement : UInt32} {first second : Bytes}
      (reserved : first.length = 3) (unused : second.length = 4) :
      Image (.corrupt start stop wanted replacement)
        (Opcode.corrupt.byte :: (first ++ be32 start ++ be32 stop ++ be32 wanted ++ be32 replacement ++
          second))
  | search {template : Bytes} {length : UInt8} {index startHigh stopHigh : UInt16} {pad : Bytes}
      (counted : template.length = length.toNat)
      (padding : pad.length = roundUpToLine length.toNat - length.toNat) :
      Image (.search template index startHigh stopHigh)
        ([Opcode.search.byte, length] ++ be16 index ++ be16 startHigh ++ be16 stopHigh ++ template ++ pad)
  | call {address : UInt32} {low high : Register} {supplied : List UInt32} {count : UInt8} {pad : Bytes}
      (limit : count ≤ 8) (counted : supplied.length = count.toNat)
      (padding : pad.length = roundUpToLine (count.toNat * 4) - count.toNat * 4) :
      Image (.call address low high (Vector.ofFn fun i => supplied.getD i.val 0) count)
        ([Opcode.call.byte, low.toByte, high.toByte, count] ++ be32 address ++ encodeWords supplied ++ pad)

theorem Image.length_eq {i : Instruction} {bs : Bytes} (image : i.Image bs) :
    bs.length = i.encodedLength := by
  have filled (n : Nat) : n + (roundUpToLine n - n) = roundUpToLine n :=
    Nat.add_sub_cancel' (le_roundUpToLine n)
  cases image with
  | writeString addressing length padding =>
    simp only [encodedLength, encodeLine, List.length_append, List.length_cons, List.length_nil,
      length_be16, length_be32, length, padding, Nat.add_assoc, Nat.reduceAdd, filled]
  | native reserved unused length =>
    simp only [encodedLength, List.length_cons, List.length_append, length_be16, reserved, unused, length]
    unfold roundUpToLine
    omega
  | search counted padding =>
    simp only [encodedLength, List.length_append, List.length_cons, List.length_nil, length_be16,
      counted, padding, Nat.add_assoc, Nat.reduceAdd, filled]
  | call limit counted padding =>
    simp only [encodedLength, List.length_append, List.length_cons, List.length_nil, length_be32,
      length_encodeWords, counted, padding, Nat.add_assoc, Nat.reduceAdd, filled]
  | _ =>
    simp [encodedLength, opcode, Opcode.fixedLength?, encodeLine, *]

/-- What has an image keeps all limits. -/
theorem Image.fits {i : Instruction} {bs : Bytes} (image : i.Image bs) : i.misfit? = none := by
  cases image with
  | @writeString target bytes mode field pad addressing length padding =>
    have bound := field.toNat_lt
    exact if_neg (by omega)
  | @search template length index startHigh stopHigh pad counted padding =>
    have bound := length.toNat_lt
    exact if_neg (by omega)
  | @native code lines first second reserved unused length =>
    have bound := lines.toNat_lt
    simp only [misfit?, length, Nat.mul_mod_left, ne_eq, not_true_eq_false, if_false]
    exact if_neg (by omega)
  | call limit counted padding => exact if_neg (UInt8.not_lt.mpr limit)
  | _ => rfl

end Instruction

end LivePatch
