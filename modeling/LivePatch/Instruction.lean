import LivePatch.Instruction.Arithmetic
import LivePatch.Instruction.Mode
import LivePatch.Instruction.Opcode

namespace LivePatch

inductive Instruction where
  /-- Write a value once. -/
  | write (target : Target) (width : Width) (value : UInt32)
  | writeString (target : Target) (bytes : Bytes)
  /-- Write `iterations` values, moving the address by `step` and the value by `increment`. -/
  | writeSeries (target : Target) (width : Width) (value : UInt32) (iterations : UInt16)
      (step increment : UInt32)
  /-- Fill `length` bytes with a word. -/
  | fill (target : Target) (value length : UInt32)
  /-- Open a block that runs if the comparison holds; only `between` uses `upper`. -/
  | test (comparison : Comparison) (target : Target) (width : Width) (value upper : UInt32)
  /-- Open a block that runs on every `delay`-th pass. -/
  | timer (delay : UInt32)
  | resetTimer
  | loadInteger (target : Target) (width : Width) (register : Register)
  | storeInteger (target : Target) (width : Width) (register : Register)
  | loadFloat (target : Target) (register : Register)
  | storeFloat (target : Target) (register : Register)
  | integerArithmetic (arithmetic : Arithmetic) (destination : Register) (source : Source)
  | floatArithmetic (arithmetic : Arithmetic) (destination : Register) (source : Source)
  | floatToInteger (source destination : Register)
  /-- Take an address as the pointer if the word there lies between the bounds. -/
  | loadPointer (target : Target) (lower upper : UInt32)
  | offsetPointer (offset : Int32)
  | setPointer (address : UInt32)
  /-- Hand machine code to the host. -/
  | native (code : Bytes)
  | systemCall (code : UInt16)
  /-- Close a block. -/
  | terminator
  | noOperation
  | timerEnd
  /-- Replace every word equal to `wanted` in a range. -/
  | corrupt (start stop wanted replacement : UInt32)
  /-- Find the `index`-th occurrence of a template; the bounds are the high halves of addresses. -/
  | search (template : Bytes) (index startHigh stopHigh : UInt16)
  /-- Call a function of the host with the first `count` arguments. -/
  | call (address : UInt32) (low high : Register) (arguments : Vector UInt32 8) (count : UInt8)
deriving DecidableEq

namespace Instruction

def opcode : Instruction → Opcode
  | write .. => .write
  | writeString .. => .writeString
  | writeSeries .. => .writeSeries
  | fill .. => .fill
  | test comparison .. => .test comparison
  | timer _ => .timer
  | resetTimer => .resetTimer
  | loadInteger .. => .loadInteger
  | storeInteger .. => .storeInteger
  | loadFloat .. => .loadFloat
  | storeFloat .. => .storeFloat
  | integerArithmetic .. => .integerArithmetic
  | floatArithmetic .. | floatToInteger .. => .floatArithmetic
  | loadPointer .. => .loadPointer
  | offsetPointer _ => .offsetPointer
  | setPointer _ => .setPointer
  | native _ => .native
  | systemCall _ => .systemCall
  | terminator => .terminator
  | noOperation => .noOperation
  | timerEnd => .timerEnd
  | corrupt .. => .corrupt
  | search .. => .search
  | call .. => .call

/-- The address operand, for the kinds that have one. -/
def target? : Instruction → Option Target
  | write target .. | writeString target _ | writeSeries target .. | fill target .. => some target
  | test _ target .. | loadPointer target .. => some target
  | loadInteger target .. | storeInteger target .. => some target
  | loadFloat target _ | storeFloat target _ => some target
  | _ => none

/-- The arguments that a call supplies: as many as it counts, and never more than it has. -/
def callArguments : Instruction → List UInt32
  | call _ _ _ arguments count => arguments.toList.take count.toNat
  | _ => []

/-- Number of stream bytes that the instruction occupies. -/
def encodedLength (i : Instruction) : Nat :=
  match i with
  | writeString _ bytes => 8 + roundUpToLine bytes.length
  | native code => 8 + roundUpToLine code.length
  | search template .. => 8 + roundUpToLine template.length
  | call _ _ _ _ count => 8 + roundUpToLine (count.toNat * 4)
  | _ => i.opcode.fixedLength?.getD 8

end Instruction

/-- The last line of a block that a test opens. -/
def terminatorLine : Line :=
  #v[0xD0, 0x00, 0x00, 0x00, 0xDE, 0xAD, 0xCA, 0xFE]

/-- The last line of a block that a timer opens. -/
def resetTimerLine : Line :=
  #v[0x0D, 0x00, 0x00, 0x00, 0x00, 0x00, 0x00, 0x00]

end LivePatch
