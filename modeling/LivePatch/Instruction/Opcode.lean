import LivePatch.Instruction.Comparison

namespace LivePatch

/-- First byte of an instruction. -/
inductive Opcode where
  | write
  | writeString
  | writeSeries
  | test (comparison : Comparison)
  | timer
  | resetTimer
  | loadInteger
  | storeInteger
  | loadFloat
  | storeFloat
  | integerArithmetic
  | floatArithmetic
  | fill
  | loadPointer
  | offsetPointer
  | setPointer
  | native
  | systemCall
  | terminator
  | noOperation
  | timerEnd
  | corrupt
  | search
  | call
deriving DecidableEq

/-- A group of opcodes with a common purpose. -/
inductive Family where
  | memoryWrite
  | conditional
  | timer
  | registerTransfer
  | arithmetic
  | pointer
  | native
  | scan
  | streamControl
deriving DecidableEq

namespace Family

def text : Family → String
  | memoryWrite => "memory-write"
  | conditional => "conditional"
  | timer => "timer"
  | registerTransfer => "register-transfer"
  | arithmetic => "arithmetic"
  | pointer => "pointer"
  | native => "native"
  | scan => "scan"
  | streamControl => "stream-control"

def index : Family → Nat
  | memoryWrite => 0
  | conditional => 1
  | timer => 2
  | registerTransfer => 3
  | arithmetic => 4
  | pointer => 5
  | native => 6
  | scan => 7
  | streamControl => 8

end Family

namespace Opcode

def byte : Opcode → UInt8
  | write => 0x00
  | writeString => 0x01
  | writeSeries => 0x02
  | test .equal => 0x03
  | test .notEqual => 0x04
  | test .greater => 0x05
  | test .less => 0x06
  | test .greaterOrEqual => 0x07
  | test .lessOrEqual => 0x08
  | test .and => 0x09
  | test .or => 0x0A
  | test .between => 0x0B
  | timer => 0x0C
  | resetTimer => 0x0D
  | loadInteger => 0x10
  | storeInteger => 0x11
  | loadFloat => 0x12
  | storeFloat => 0x13
  | integerArithmetic => 0x14
  | floatArithmetic => 0x15
  | fill => 0x20
  | loadPointer => 0x30
  | offsetPointer => 0x31
  | setPointer => 0x32
  | native => 0xC0
  | systemCall => 0xC1
  | terminator => 0xD0
  | noOperation => 0xD1
  | timerEnd => 0xD2
  | corrupt => 0xF0
  | search => 0xF6
  | call => 0xF8

/-- The opcode that a byte stands for. -/
def ofByte? : UInt8 → Option Opcode
  | 0x00 => some write
  | 0x01 => some writeString
  | 0x02 => some writeSeries
  | 0x03 => some (test .equal)
  | 0x04 => some (test .notEqual)
  | 0x05 => some (test .greater)
  | 0x06 => some (test .less)
  | 0x07 => some (test .greaterOrEqual)
  | 0x08 => some (test .lessOrEqual)
  | 0x09 => some (test .and)
  | 0x0A => some (test .or)
  | 0x0B => some (test .between)
  | 0x0C => some timer
  | 0x0D => some resetTimer
  | 0x10 => some loadInteger
  | 0x11 => some storeInteger
  | 0x12 => some loadFloat
  | 0x13 => some storeFloat
  | 0x14 => some integerArithmetic
  | 0x15 => some floatArithmetic
  | 0x20 => some fill
  | 0x30 => some loadPointer
  | 0x31 => some offsetPointer
  | 0x32 => some setPointer
  | 0xC0 => some native
  | 0xC1 => some systemCall
  | 0xD0 => some terminator
  | 0xD1 => some noOperation
  | 0xD2 => some timerEnd
  | 0xF0 => some corrupt
  | 0xF6 => some search
  | 0xF8 => some call
  | _ => none

def mnemonic : Opcode → String
  | write => "write"
  | writeString => "string"
  | writeSeries => "skip"
  | test .equal => "ifeq"
  | test .notEqual => "ifne"
  | test .greater => "ifgt"
  | test .less => "iflt"
  | test .greaterOrEqual => "ifge"
  | test .lessOrEqual => "ifle"
  | test .and => "ifand"
  | test .or => "ifor"
  | test .between => "ifbetween"
  | timer => "timer"
  | resetTimer => "resettimer"
  | loadInteger => "ldint"
  | storeInteger => "stint"
  | loadFloat => "ldfloat"
  | storeFloat => "stfloat"
  | integerArithmetic => "intop"
  | floatArithmetic => "floatop"
  | fill => "fill"
  | loadPointer => "ldptr"
  | offsetPointer => "addptr"
  | setPointer => "setptr"
  | native => "asm"
  | systemCall => "syscall"
  | terminator => "end"
  | noOperation => "nop"
  | timerEnd => "timerend"
  | corrupt => "corrupt"
  | search => "search"
  | call => "call"

def family : Opcode → Family
  | write | writeString | writeSeries | fill => .memoryWrite
  | test _ => .conditional
  | timer | resetTimer => .timer
  | loadInteger | storeInteger | loadFloat | storeFloat => .registerTransfer
  | integerArithmetic | floatArithmetic => .arithmetic
  | loadPointer | offsetPointer | setPointer => .pointer
  | native | systemCall | call => .native
  | corrupt | search => .scan
  | terminator | noOperation | timerEnd => .streamControl

/-- Number of stream bytes, for the kinds without a payload. -/
def fixedLength? : Opcode → Option Nat
  | writeString | native | search | call => none
  | writeSeries | corrupt => some 24
  | write | fill | loadPointer | test _ => some 16
  | _ => some 8

/-- The test that a conditional opcode makes. -/
def comparison? : Opcode → Option Comparison
  | test c => some c
  | _ => none

theorem byte_of_ofByte? {b : UInt8} {o : Opcode} (found : ofByte? b = some o) : o.byte = b := by
  unfold ofByte? at found
  split at found
  case h_33 => cases found
  all_goals
    cases found
    rfl

theorem ofByte?_byte (o : Opcode) : ofByte? o.byte = some o := by
  cases o with
  | test c => cases c <;> rfl
  | _ => rfl

end Opcode

end LivePatch
