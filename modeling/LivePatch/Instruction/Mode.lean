import LivePatch.Instruction.Fault

namespace LivePatch

/-- How an address field is meant. -/
inductive Addressing where
  | absolute
  /-- An offset from the loaded pointer. -/
  | relative
deriving DecidableEq

namespace Addressing

def nibble : Addressing → UInt8
  | absolute => 0
  | relative => 1

def ofNibble (n : UInt8) : Except Fault Addressing :=
  if n = 0 then .ok absolute
  else if n = 1 then .ok relative
  else .error (.invalidAddressing n)

end Addressing

/-- An address operand. -/
structure Target where
  addressing : Addressing
  address : UInt32
deriving DecidableEq

def Target.text (t : Target) : String :=
  match t.addressing with
  | .absolute => "[" ++ Text.hex 8 t.address.toNat ++ "]"
  | .relative => "[ptr+" ++ Text.hex 0 t.address.toNat ++ "]"

/-- Width of a value in memory. -/
inductive Width where
  | byte
  | half
  | word
deriving DecidableEq

namespace Width

def nibble : Width → UInt8
  | byte => 0
  | half => 1
  | word => 2

def ofNibble (n : UInt8) : Except Fault Width :=
  if n = 0 then .ok byte
  else if n = 1 then .ok half
  else if n = 2 then .ok word
  else .error (.invalidWidth n)

/-- Number of bytes. -/
def size : Width → Nat
  | byte => 1
  | half => 2
  | word => 4

def mask : Width → UInt32
  | byte => 0xFF
  | half => 0xFFFF
  | word => 0xFFFFFFFF

/-- The low bits of a word, as many as the width has. -/
def truncate (w : Width) (value : UInt32) : UInt32 :=
  value &&& w.mask

def text : Width → String
  | byte => "u8"
  | half => "u16"
  | word => "u32"

end Width

def upperNibble (b : UInt8) : UInt8 :=
  b / 16

def lowerNibble (b : UInt8) : UInt8 :=
  b % 16

/-- Addressing in the upper nibble, width in the lower one. -/
def modeByte (a : Addressing) (w : Width) : UInt8 :=
  a.nibble * 16 + w.nibble

end LivePatch
