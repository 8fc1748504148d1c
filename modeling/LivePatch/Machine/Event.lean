import LivePatch.Instruction.Decode
import LivePatch.Instruction.Text
import LivePatch.Machine.Registers

namespace LivePatch

/-- The line that closes a block. -/
inductive BlockEnd where
  | terminator
  | resetTimer
deriving DecidableEq

namespace BlockEnd

def line : BlockEnd → Line
  | terminator => terminatorLine
  | resetTimer => resetTimerLine

def text : BlockEnd → String
  | terminator => "terminator"
  | resetTimer => "reset timer"

end BlockEnd

/-- Reasons why a pass cannot go on. -/
inductive PassError where
  | decode (position : Nat) (cause : DecodeError)
  /-- The block opened at `position` has no closing line. -/
  | unterminatedBlock (position : Nat) (blockEnd : BlockEnd)
  | negativeLength (position length : Nat)
  /-- What remains at `position` is not a whole number of lines. -/
  | misalignedLength (position remaining : Nat)
deriving DecidableEq

namespace PassError

def position : PassError → Nat
  | decode position _ => position
  | unterminatedBlock position _ => position
  | negativeLength position _ => position
  | misalignedLength position _ => position

def message : PassError → String
  | decode position cause =>
    "Decode error at offset " ++ Text.hex 0 position ++ ": " ++ cause.message
  | unterminatedBlock position blockEnd =>
    "Block opened at offset " ++ Text.hex 0 position ++ " is not closed by a " ++ blockEnd.text ++
      " line"
  | negativeLength position length =>
    "Negative length: offset " ++ Text.hex 0 position ++
      s!" is past the end of a {length}-byte stream"
  | misalignedLength position remaining =>
    s!"Illegal code length: {remaining} bytes remain at offset " ++ Text.hex 0 position

/-- The error and what caused it, outermost first. -/
def chain : PassError → List String
  | decode position (.malformed fault) =>
    [(decode position (.malformed fault)).message, (DecodeError.malformed fault).message,
      fault.message]
  | decode position cause => [(decode position cause).message, cause.message]
  | e => [e.message]

end PassError

inductive Level where
  | error
  | warn
  | info
  | debug
  | trace
deriving DecidableEq

namespace Level

/-- Zero for the most severe. -/
def rank : Level → Nat
  | error => 0
  | warn => 1
  | info => 2
  | debug => 3
  | trace => 4

def text : Level → String
  | error => "error"
  | warn => "warn"
  | info => "info"
  | debug => "debug"
  | trace => "trace"

end Level

/-- What a machine and its host report. -/
inductive Event where
  /-- A relative operand had no pointer to be relative to. -/
  | suppressed (offset : UInt32)
  | write (address value : UInt32) (width : Width)
  | writeString (address : UInt32) (length : Nat)
  | called (address : UInt32) (arguments : Nat) (result : UInt64)
  | tested (comparison : Comparison) (holds : Bool)
  | timerClosed (delay count : UInt32)
  | dividedByZero (register : Register)
  | pointerLoaded (address dereferenced : UInt32) (cached : Bool)
  | corrupted (replaced : Nat)
  | templateNotFound (index : UInt16)
  | passStarted (length : Nat) (count : UInt32)
  | executed (position : Nat) (instruction : Instruction)
  /-- An executed instruction, in a run that shows its listing. -/
  | traced (position : Nat) (instruction : Instruction)
  | blockSkipped (start stop : Nat) (blockEnd : BlockEnd)
  | templateReplaced (position : Nat) (address : UInt32) (removed : Nat)
  /-- An error, with the code line where it arose. -/
  | passFailed (error : PassError) (line : Bytes)
  | passCompleted (instructions skipped : Nat) (count : UInt32)
  /-- Whatever a host reports on its own. -/
  | ofHost (level : Level) (message : String) (fields : List (String × String))
deriving DecidableEq

namespace Event

def level : Event → Level
  | suppressed _ | write .. | writeString .. => .trace
  | dividedByZero _ => .warn
  | traced .. => .info
  | passFailed .. => .error
  | ofHost level .. => level
  | _ => .debug

def message : Event → String
  | suppressed _ => "pointer not loaded, side effect suppressed"
  | write .. => "write"
  | writeString .. => "string write"
  | called .. => "procedure call"
  | tested .. => "condition evaluated"
  | timerClosed .. => "timer gate closed"
  | dividedByZero _ => "integer division by zero"
  | pointerLoaded .. => "load pointer"
  | corrupted _ => "corrupter"
  | templateNotFound _ => "search template not found"
  | passStarted .. => "pass started"
  | executed .. => "execute"
  | traced position instruction => Text.upperHex 6 position ++ ": " ++ instruction.text
  | blockSkipped .. => "block skipped"
  | templateReplaced .. => "search template rewritten"
  | passFailed error _ => error.message
  | passCompleted .. => "pass completed"
  | ofHost _ message _ => message

/-- Named values that go with the message, as texts. -/
def fields : Event → List (String × String)
  | suppressed offset => [("offset", toString offset)]
  | write address value width =>
    [("address", Text.hex 8 address.toNat), ("value", toString value), ("size", width.text)]
  | writeString address length =>
    [("address", Text.hex 8 address.toNat), ("length", toString length)]
  | called address arguments result =>
    [("address", Text.hex 8 address.toNat), ("arguments", toString arguments),
      ("result", Text.hex 16 result.toNat)]
  | tested comparison holds => [("comparison", comparison.name), ("holds", toString holds)]
  | timerClosed delay count => [("delay", toString delay), ("execution_count", toString count)]
  | dividedByZero register =>
    [("register", register.integerName), ("result", toString Registers.divisionByZeroResult)]
  | pointerLoaded address dereferenced cached =>
    [("address", Text.hex 8 address.toNat), ("dereferenced", Text.hex 8 dereferenced.toNat),
      ("cached", toString cached)]
  | corrupted replaced => [("replaced", toString replaced)]
  | templateNotFound index => [("target_index", toString index)]
  | passStarted length count => [("length", toString length), ("execution_count", toString count)]
  | executed position instruction =>
    [("position", toString position), ("opcode", instruction.opcode.mnemonic)]
  | traced .. => []
  | blockSkipped start stop blockEnd =>
    [("from", toString start), ("to", toString stop), ("end", blockEnd.text)]
  | templateReplaced position address removed =>
    [("position", toString position), ("address", Text.hex 8 address.toNat),
      ("removed", toString removed)]
  | passFailed error line =>
    [("position", Text.hex 0 error.position), ("line", Text.hexLine line)]
  | passCompleted instructions skipped count =>
    [("instructions", toString instructions), ("skipped_blocks", toString skipped),
      ("execution_count", toString count)]
  | ofHost _ _ fields => fields

end Event

end LivePatch
