import LivePatch.Instruction.Mode
import LivePatch.Machine.Registers

namespace LivePatch

/-- Flag and pointer last for a pass, or until a block is closed; the delay lasts until it is reset; the
counter and the registers stay. -/
structure State where
  /-- Outcome of the last test. -/
  flag : Bool := false
  /-- Base of relative addresses; zero if none is loaded. -/
  pointer : UInt32 := 0
  /-- Period of the timer; zero if there is none. -/
  delay : UInt32 := 0
  /-- Number of completed passes. -/
  count : UInt32 := 0
  registers : Registers := {}
deriving DecidableEq

namespace State

/-- A relative address is usable only while a pointer is loaded. -/
def allows (s : State) : Addressing → Bool
  | .absolute => true
  | .relative => s.pointer ≠ 0

def resolve (s : State) (t : Target) : UInt32 :=
  match t.addressing with
  | .absolute => t.address
  | .relative => s.pointer + t.address

def resolve? (s : State) (t : Target) : Option UInt32 :=
  if s.allows t.addressing then some (s.resolve t) else none

def onRegisters (s : State) (f : Registers → Registers) : State :=
  { s with registers := f s.registers }

def beginPass (s : State) : State :=
  { s with flag := false, pointer := 0 }

def finishPass (s : State) : State :=
  { s with count := s.count + 1 }

def terminateBlock (s : State) : State :=
  { s with flag := false, pointer := 0 }

/-- The state with everything that reads from memory decide put back as it was in `saved`. -/
def restoring (s saved : State) : State :=
  { s with registers := saved.registers, pointer := saved.pointer, flag := saved.flag }

/-- Whether a timer block is skipped on this pass. -/
def timerClosed (s : State) : Bool :=
  s.delay ≠ 0 ∧ s.count % s.delay ≠ 0

end State

end LivePatch
