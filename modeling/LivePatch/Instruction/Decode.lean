import LivePatch.Instruction
import LivePatch.Instruction.Reader

namespace LivePatch

inductive DecodeError where
  | unknownOpcode (byte : UInt8)
  | malformed (fault : Fault)
  /-- The stream ends inside a code line. -/
  | partialLine (position remaining : Nat)
deriving DecidableEq

def DecodeError.message : DecodeError → String
  | unknownOpcode byte => "Unknown opcode: 0x" ++ Text.upperHex 2 byte.toNat
  | malformed fault => "Malformed instruction: " ++ fault.message
  | partialLine position remaining =>
    s!"Stream ends mid-line: {remaining} trailing bytes at offset " ++ Text.hex 0 position

/-- The fields that most instructions begin with. -/
structure Operand where
  /-- The byte after the opcode, as it stands. -/
  mode : UInt8
  target : Target
  width : Width
  /-- The second word, for instructions of more than one line. -/
  value : UInt32
  /-- Number of payload bytes. -/
  length : Nat
  field : UInt16
deriving DecidableEq

namespace Reader

def ofExcept {α : Type} : Except Fault α → Reader α
  | .ok a => return a
  | .error fault => fail fault

/-- The second word of an instruction of more than one line. -/
def secondWord (op : Opcode) : Reader UInt32 :=
  if 8 < op.fixedLength?.getD 8 then word else return 0

/-- Register arithmetic has a code for a mode and a literal for an address; a string has no width;
any other operand has both halves of the mode, and a value if the instruction has a second line. -/
def operand (op : Opcode) : Reader Operand := do
  let mode ← byte
  let field ← half
  let base ← word
  match op with
  | .integerArithmetic | .floatArithmetic =>
    return ⟨mode, ⟨.absolute, 0⟩, .word, base, 4, field⟩
  | .writeString =>
    let addressing ← ofExcept (Addressing.ofNibble (upperNibble mode))
    return ⟨mode, ⟨addressing, base⟩, .byte, 0, field.toNat, field⟩
  | _ =>
    let addressing ← ofExcept (Addressing.ofNibble (upperNibble mode))
    let width ← ofExcept (Width.ofNibble (lowerNibble mode))
    let value ← secondWord op
    return ⟨mode, ⟨addressing, base⟩, width, value, width.size, field⟩

/-- An operand and the upper bound after it. -/
def testOperand : Reader (Operand × UInt32) := do
  let o ← operand (.test .notEqual)
  return (o, ← word)

def register (b : UInt8) : Reader Register :=
  ofExcept (Register.ofByte b)

def highRegister (field : UInt16) : Reader Register :=
  register (UInt8.ofNat (field.toNat / 256))

def lowRegister (field : UInt16) : Reader Register :=
  register (UInt8.ofNat field.toNat)

/-- The second operand of register arithmetic. -/
def source (o : Operand) (literal : Bool) : Reader Source := do
  if literal then return .literal o.value
  else return .register (← lowRegister o.field)

def argumentCount : Reader UInt8 := do
  let count ← byte
  if 8 < count then fail (.tooManyArguments count) else return count

/-- The arguments fill whole lines; the slots that are not supplied are zero. -/
def call : Reader Instruction := do
  let low ← register (← byte)
  let high ← register (← byte)
  let count ← argumentCount
  let address ← word
  let arguments ← words count.toNat
  skip (roundUpToLine (count.toNat * 4) - count.toNat * 4)
  return .call address low high (Vector.ofFn fun i => arguments.getD i.val 0) count

/-- The part of an instruction after its opcode. -/
def instruction (op : Opcode) : Reader Instruction :=
  match op with
  | .write => do
    let o ← operand op
    skip 4
    return .write o.target o.width o.value
  | .writeString => do
    let o ← operand op
    return .writeString o.target (← paddedBytes o.length)
  | .writeSeries => do
    let o ← operand op
    let step ← word
    let increment ← word
    skip 4
    return .writeSeries o.target o.width o.value o.field step increment
  | .fill => do
    let o ← operand op
    return .fill o.target o.value (← word)
  | .test comparison => do
    let (o, upper) ← testOperand
    return .test comparison o.target o.width o.value upper
  | .timer => do
    skip 3
    return .timer (← word)
  | .resetTimer => do
    skip 7
    return .resetTimer
  | .loadInteger => do
    let o ← operand op
    return .loadInteger o.target o.width (← lowRegister o.field)
  | .storeInteger => do
    let o ← operand op
    return .storeInteger o.target o.width (← lowRegister o.field)
  | .loadFloat => do
    let o ← operand op
    return .loadFloat o.target (← lowRegister o.field)
  | .storeFloat => do
    let o ← operand op
    return .storeFloat o.target (← lowRegister o.field)
  | .integerArithmetic => do
    let o ← operand op
    let operation ← ofExcept (IntegerOperation.ofCode o.mode)
    let destination ← highRegister o.field
    return .integerArithmetic operation.arithmetic destination (← source o operation.literal)
  | .floatArithmetic => do
    let o ← operand op
    match ← ofExcept (FloatOperation.ofCode o.mode) with
    | .toInteger =>
      let source ← highRegister o.field
      return .floatToInteger source (← lowRegister o.field)
    | .arithmetic arithmetic literal =>
      let destination ← highRegister o.field
      return .floatArithmetic arithmetic destination (← source o literal)
  | .loadPointer => do
    let o ← operand op
    return .loadPointer o.target o.value (← word)
  | .offsetPointer => do
    skip 3
    return .offsetPointer (← word).toInt32
  | .setPointer => do
    skip 3
    return .setPointer (← word)
  | .native => do
    skip 1
    let lines ← half
    skip 4
    return .native (← bytes (lines.toNat * 8))
  | .systemCall => do
    skip 1
    let code ← half
    skip 4
    return .systemCall code
  | .terminator => do
    skip 7
    return .terminator
  | .noOperation => do
    skip 7
    return .noOperation
  | .timerEnd => do
    skip 7
    return .timerEnd
  | .corrupt => do
    skip 3
    let start ← word
    let stop ← word
    let wanted ← word
    let replacement ← word
    skip 4
    return .corrupt start stop wanted replacement
  | .search => do
    let length ← byte
    let index ← half
    let startHigh ← half
    let stopHigh ← half
    return .search (← paddedBytes length.toNat) index startHigh stopHigh
  | .call => call

end Reader

/-- The instruction at the start of a stream, and the number of bytes it occupies. The first field that
cannot be read decides the error. -/
def decode (bs : Bytes) : Except DecodeError (Instruction × Nat) :=
  match Reader.byte (Cursor.ofBytes bs) with
  | .error fault => .error (.malformed fault)
  | .ok (byte, c) =>
    match Opcode.ofByte? byte with
    | none => .error (.unknownOpcode byte)
    | some op =>
      match Reader.instruction op c with
      | .error fault => .error (.malformed fault)
      | .ok (i, c) => .ok (i, c.position)

end LivePatch
