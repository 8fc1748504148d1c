namespace LivePatch

/-- Tests of a value read from memory against an operand. -/
inductive Comparison where
  | equal
  | notEqual
  | greater
  | less
  | greaterOrEqual
  | lessOrEqual
  | and
  | or
  | between
deriving DecidableEq

namespace Comparison

/-- All comparisons are unsigned. `and` asks for a bit set in both values, `or` for a bit set in
either; `between` leaves out both bounds, and no other test looks at `upper`. -/
def holds (c : Comparison) (memory value upper : UInt32) : Bool :=
  match c with
  | equal => memory = value
  | notEqual => memory ≠ value
  | greater => value < memory
  | less => memory < value
  | greaterOrEqual => value ≤ memory
  | lessOrEqual => memory ≤ value
  | and => memory &&& value ≠ 0
  | or => memory ||| value ≠ 0
  | between => value < memory ∧ memory < upper

/-- Name in the event log. -/
def name : Comparison → String
  | equal => "Equal"
  | notEqual => "NotEqual"
  | greater => "Greater"
  | less => "Less"
  | greaterOrEqual => "GreaterOrEqual"
  | lessOrEqual => "LessOrEqual"
  | and => "And"
  | or => "Or"
  | between => "Between"

def all : List Comparison :=
  [equal, notEqual, greater, less, greaterOrEqual, lessOrEqual, and, or, between]

end Comparison

end LivePatch
