import LivePatch.Text.Hex

namespace LivePatch

/-- Reasons why bytes of a stream are not a field of an instruction. -/
inductive Fault where
  | invalidOpcode (byte : UInt8)
  | invalidWidth (nibble : UInt8)
  | invalidAddressing (nibble : UInt8)
  | invalidRegister (index : UInt8)
  | tooManyArguments (count : UInt8)
  | invalidIntegerOperation (code : UInt8)
  | invalidFloatOperation (code : UInt8)
  /-- `wanted` bytes were asked for at `position`, where only `available` were left. -/
  | truncated (position wanted available : Nat)
deriving DecidableEq

namespace Fault

def isTruncation : Fault → Bool
  | truncated .. => true
  | _ => false

def message : Fault → String
  | invalidOpcode byte => "Invalid opcode: " ++ Text.hex 2 byte.toNat
  | invalidWidth nibble => s!"Invalid value size nibble: {nibble} (valid range: 0-2)"
  | invalidAddressing nibble => s!"Invalid pointer mode nibble: {nibble} (valid range: 0-1)"
  | invalidRegister index => s!"Invalid register index: {index} (valid range: 0-7)"
  | tooManyArguments count => s!"Too many call arguments: {count} (maximum 8)"
  | invalidIntegerOperation code => "Invalid integer operation: " ++ Text.hex 2 code.toNat
  | invalidFloatOperation code => "Invalid float operation: " ++ Text.hex 2 code.toNat
  | truncated position wanted available =>
    "Truncated instruction at offset " ++ Text.hex 0 position ++
      s!": wanted {wanted} bytes, {available} available"

end Fault

end LivePatch
