import LivePatch.Binary32
import LivePatch.Instruction.Arithmetic

namespace LivePatch

structure Registers where
  integer : Vector UInt32 8 := .replicate 8 0
  float : Vector Binary32 8 := .replicate 8 0
deriving DecidableEq

namespace Registers

def setInteger (regs : Registers) (r : Register) (value : UInt32) : Registers :=
  { regs with integer := regs.integer.set r value }

def setFloat (regs : Registers) (r : Register) (value : Binary32) : Registers :=
  { regs with float := regs.float.set r value }

/-- What an integer division by zero leaves. -/
def divisionByZeroResult : UInt32 :=
  0xFFFFFFFF

/-- Result of integer arithmetic, modulo `2 ^ 32`. -/
def integerResult (a : Arithmetic) (x y : UInt32) : UInt32 :=
  match a with
  | .add => x + y
  | .subtract => x - y
  | .multiply => x * y
  | .divide => if y = 0 then divisionByZeroResult else x / y

def dividesByZero (a : Arithmetic) (operand : UInt32) : Bool :=
  a = .divide ∧ operand = 0

def floatResult (a : Arithmetic) (x y : Binary32) : Binary32 :=
  match a with
  | .add => x.add y
  | .subtract => x.sub y
  | .multiply => x.mul y
  | .divide => x.div y

def applyInteger (regs : Registers) (a : Arithmetic) (destination : Register) (operand : UInt32) :
    Registers :=
  regs.setInteger destination (integerResult a (regs.integer.get destination) operand)

def applyFloat (regs : Registers) (a : Arithmetic) (destination : Register) (operand : Binary32) :
    Registers :=
  regs.setFloat destination (floatResult a (regs.float.get destination) operand)

def floatToInteger (regs : Registers) (source destination : Register) : Registers :=
  regs.setInteger destination (regs.float.get source).toSigned

/-- The value of a second operand in the integer file. -/
def integerOperand (regs : Registers) : Source → UInt32
  | .register r => regs.integer.get r
  | .literal value => value

/-- The value of a second operand in the float file. -/
def floatOperand (regs : Registers) : Source → Binary32
  | .register r => regs.float.get r
  | .literal value => value

end Registers

end LivePatch
