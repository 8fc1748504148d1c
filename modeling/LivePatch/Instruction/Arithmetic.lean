import LivePatch.Instruction.Register

namespace LivePatch

inductive Arithmetic where
  | add
  | subtract
  | multiply
  | divide
deriving DecidableEq

namespace Arithmetic

def text : Arithmetic → String
  | add => "add"
  | subtract => "sub"
  | multiply => "mul"
  | divide => "div"

def all : List Arithmetic :=
  [add, subtract, multiply, divide]

/-- Code of the operation on two registers, in either file. -/
def registerCode : Arithmetic → UInt8
  | add => 0
  | subtract => 1
  | multiply => 2
  | divide => 3

/-- The operation on two registers that a code selects, in either file. -/
def ofRegisterCode? : UInt8 → Option Arithmetic
  | 0 => some add
  | 1 => some subtract
  | 2 => some multiply
  | 3 => some divide
  | _ => none

/-- Code of the integer operation with a literal; division comes before multiplication here. -/
def integerLiteralCode : Arithmetic → UInt8
  | add => 4
  | subtract => 5
  | divide => 6
  | multiply => 7

/-- Code of the float operation with a literal. -/
def floatLiteralCode (a : Arithmetic) : UInt8 :=
  4 + a.registerCode

theorem ofRegisterCode?_eq_some_iff {b : UInt8} {a : Arithmetic} :
    ofRegisterCode? b = some a ↔ b = a.registerCode := by
  constructor
  · intro selected
    unfold ofRegisterCode? at selected
    split at selected
    case h_5 => cases selected
    all_goals
      cases selected
      rfl
  · rintro rfl
    cases a <;> rfl

end Arithmetic

/-- Second operand of register arithmetic. -/
inductive Source where
  | register (r : Register)
  /-- A word, or the bits of a float. -/
  | literal (value : UInt32)
deriving DecidableEq

def Source.isLiteral : Source → Bool
  | register _ => false
  | literal _ => true

/-- What a code byte of integer arithmetic selects. -/
structure IntegerOperation where
  arithmetic : Arithmetic
  literal : Bool
deriving DecidableEq

namespace IntegerOperation

def code (o : IntegerOperation) : UInt8 :=
  if o.literal then o.arithmetic.integerLiteralCode else o.arithmetic.registerCode

def ofCode : UInt8 → Except Fault IntegerOperation
  | 4 => .ok ⟨.add, true⟩
  | 5 => .ok ⟨.subtract, true⟩
  | 6 => .ok ⟨.divide, true⟩
  | 7 => .ok ⟨.multiply, true⟩
  | b =>
    match Arithmetic.ofRegisterCode? b with
    | some a => .ok ⟨a, false⟩
    | none => .error (.invalidIntegerOperation b)

theorem ofCode_eq_ok_iff {b : UInt8} {o : IntegerOperation} : ofCode b = .ok o ↔ b = o.code := by
  constructor
  · intro selected
    unfold ofCode at selected
    split at selected
    case h_5 =>
      split at selected
      · rename_i found
        cases selected
        exact Arithmetic.ofRegisterCode?_eq_some_iff.mp found
      · cases selected
    all_goals
      cases selected
      rfl
  · rintro rfl
    obtain ⟨a, literal⟩ := o
    cases a <;> cases literal <;> rfl

end IntegerOperation

/-- What a code byte of float arithmetic selects. -/
inductive FloatOperation where
  | arithmetic (a : Arithmetic) (literal : Bool)
  /-- Conversion into an integer register. -/
  | toInteger
deriving DecidableEq

namespace FloatOperation

def code : FloatOperation → UInt8
  | arithmetic a literal => if literal then a.floatLiteralCode else a.registerCode
  | toInteger => 8

def ofCode : UInt8 → Except Fault FloatOperation
  | 4 => .ok (.arithmetic .add true)
  | 5 => .ok (.arithmetic .subtract true)
  | 6 => .ok (.arithmetic .multiply true)
  | 7 => .ok (.arithmetic .divide true)
  | 8 => .ok .toInteger
  | b =>
    match Arithmetic.ofRegisterCode? b with
    | some a => .ok (.arithmetic a false)
    | none => .error (.invalidFloatOperation b)

theorem ofCode_eq_ok_iff {b : UInt8} {o : FloatOperation} : ofCode b = .ok o ↔ b = o.code := by
  constructor
  · intro selected
    unfold ofCode at selected
    split at selected
    case h_6 =>
      split at selected
      · rename_i found
        cases selected
        exact Arithmetic.ofRegisterCode?_eq_some_iff.mp found
      · cases selected
    all_goals
      cases selected
      rfl
  · rintro rfl
    cases o with
    | toInteger => rfl
    | arithmetic a literal => cases a <;> cases literal <;> rfl

end FloatOperation

end LivePatch
