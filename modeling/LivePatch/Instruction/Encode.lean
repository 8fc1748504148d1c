import LivePatch.Instruction

namespace LivePatch

namespace Instruction

/-- `[opcode] [mode] [field, 2 bytes] [word, 4 bytes]` -/
def encodeLine (op : Opcode) (mode : UInt8) (field : UInt16) (word : UInt32) : Bytes :=
  [op.byte, mode] ++ be16 field ++ be32 word

def encodeWords (words : List UInt32) : Bytes :=
  words.flatMap be32

/-- Two registers packed into a field. -/
def registerPair (first second : Register) : UInt16 :=
  first.toByte.toUInt16 * 256 + second.toByte.toUInt16

/-- A line of register arithmetic; the unused operand is zero. -/
def encodeArithmetic (op : Opcode) (code : UInt8) (destination : Register) : Source → Bytes
  | .register r => encodeLine op code (registerPair destination r) 0
  | .literal value => encodeLine op code (registerPair destination 0) value

/-- A length that exceeds its field is written modulo the size of the field. -/
def encode (i : Instruction) : Bytes :=
  match i with
  | write target width value =>
    encodeLine .write (modeByte target.addressing width) 0 target.address ++ encodeWords [value, 0]
  | writeString target bytes =>
    encodeLine .writeString (modeByte target.addressing .byte) (UInt16.ofNat bytes.length)
      target.address ++ padded bytes
  | writeSeries target width value iterations step increment =>
    encodeLine .writeSeries (modeByte target.addressing width) iterations target.address ++
      encodeWords [value, step, increment, 0]
  | fill target value length =>
    encodeLine .fill (modeByte target.addressing .word) 0 target.address ++
      encodeWords [value, length]
  | test comparison target width value upper =>
    encodeLine (.test comparison) (modeByte target.addressing width) 0 target.address ++
      encodeWords [value, upper]
  | timer delay => encodeLine .timer 0 0 delay
  | resetTimer => encodeLine .resetTimer 0 0 0
  | loadInteger target width register =>
    encodeLine .loadInteger (modeByte target.addressing width) register.toByte.toUInt16
      target.address
  | storeInteger target width register =>
    encodeLine .storeInteger (modeByte target.addressing width) register.toByte.toUInt16
      target.address
  | loadFloat target register =>
    encodeLine .loadFloat (modeByte target.addressing .word) register.toByte.toUInt16 target.address
  | storeFloat target register =>
    encodeLine .storeFloat (modeByte target.addressing .word) register.toByte.toUInt16
      target.address
  | integerArithmetic arithmetic destination source =>
    encodeArithmetic .integerArithmetic (IntegerOperation.code ⟨arithmetic, source.isLiteral⟩)
      destination source
  | floatArithmetic arithmetic destination source =>
    encodeArithmetic .floatArithmetic (FloatOperation.code (.arithmetic arithmetic source.isLiteral))
      destination source
  | floatToInteger source destination =>
    encodeLine .floatArithmetic FloatOperation.toInteger.code (registerPair source destination) 0
  | loadPointer target lower upper =>
    encodeLine .loadPointer (modeByte target.addressing .word) 0 target.address ++
      encodeWords [lower, upper]
  | offsetPointer offset => encodeLine .offsetPointer 0 0 offset.toUInt32
  | setPointer address => encodeLine .setPointer 0 0 address
  | native code =>
    encodeLine .native 0 (UInt16.ofNat (roundUpToLine code.length / 8)) 0 ++ padded code
  | systemCall code => encodeLine .systemCall 0 code 0
  | terminator => terminatorLine.toList
  | noOperation => encodeLine .noOperation 0 0 0
  | timerEnd => encodeLine .timerEnd 0 0 0
  | corrupt start stop wanted replacement =>
    encodeLine .corrupt 0 0 start ++ encodeWords [stop, wanted, replacement, 0]
  | search template index startHigh stopHigh =>
    [Opcode.search.byte, UInt8.ofNat template.length] ++ be16 index ++ be16 startHigh ++
      be16 stopHigh ++ padded template
  | call address low high _ _ =>
    let arguments := i.callArguments
    [Opcode.call.byte, low.toByte, high.toByte, UInt8.ofNat arguments.length] ++ be32 address ++
      encodeWords arguments ++ if arguments.length % 2 = 1 then be32 0 else []

end Instruction

/-- Reasons why an instruction has no faithful encoding. -/
inductive Misfit where
  | stringTooLong (length : Nat)
  | templateTooLong (length : Nat)
  /-- Native code has to fill whole lines. -/
  | partialCodeLine (length : Nat)
  | codeTooLong (lines : Nat)
  | tooManyArguments (count : UInt8)
deriving DecidableEq

def Misfit.message : Misfit → String
  | stringTooLong length => s!"String too long: {length} bytes (maximum 65535)"
  | templateTooLong length => s!"Search template too long: {length} bytes (maximum 255)"
  | partialCodeLine length => s!"Native code is not a whole number of lines: {length} bytes"
  | codeTooLong lines => s!"Native code too long: {lines} lines (maximum 65535)"
  | tooManyArguments count => s!"Too many call arguments: {count} (maximum 8)"

/-- The limit that an instruction breaks, if any. -/
def Instruction.misfit? : Instruction → Option Misfit
  | writeString _ bytes =>
    if 65535 < bytes.length then some (.stringTooLong bytes.length) else none
  | search template .. =>
    if 255 < template.length then some (.templateTooLong template.length) else none
  | native code =>
    if code.length % 8 ≠ 0 then some (.partialCodeLine code.length)
    else if 65535 < code.length / 8 then some (.codeTooLong (code.length / 8))
    else none
  | call _ _ _ _ count => if 8 < count then some (.tooManyArguments count) else none
  | _ => none

/-- The line that loads an address as the pointer. -/
def pointerLine (address : UInt32) : Line :=
  let n := address.toNat
  #v[Opcode.setPointer.byte, 0, 0, 0, UInt8.ofNat (n / 0x1000000), UInt8.ofNat (n / 0x10000),
    UInt8.ofNat (n / 0x100), UInt8.ofNat n]

end LivePatch
