import LivePatch.Machine.Channel
import LivePatch.Machine.State

namespace LivePatch

structure Machine (H : Type) extends Channel H where
  state : State := {}

/-- How a stream goes on after an instruction. -/
inductive Flow where
  | next
  /-- The block is skipped; its closing line comes next. -/
  | skipTo (blockEnd : BlockEnd)
  /-- The instruction turns into one that loads `address` as the pointer. -/
  | replace (address : UInt32)
deriving DecidableEq

namespace Machine

variable {H : Type}

def report (m : Machine H) (e : Event) : Machine H :=
  { m with toChannel := m.toChannel.emit e }

/-- Acts through the channel and goes on. -/
def through (m : Machine H) (act : Channel H → Channel H) : Flow × Machine H :=
  (.next, { m with toChannel := act m.toChannel })

/-- Acts on the state and goes on. -/
def within (m : Machine H) (act : State → State) : Flow × Machine H :=
  (.next, { m with state := act m.state })

/-- Acts on the address of an operand, or only reports that it has none. -/
def onTarget (m : Machine H) (t : Target) (act : Machine H → UInt32 → Flow × Machine H) :
    Flow × Machine H :=
  match m.state.resolve? t with
  | some address => act m address
  | none => (.next, m.report (.suppressed t.address))

variable [Host H]

/-- Sets the flag; a test that fails skips its block. -/
def test (m : Machine H) (comparison : Comparison) (width : Width) (address value upper : UInt32) :
    Flow × Machine H :=
  let r := m.toChannel.test comparison width address value upper
  let state := { m.state with flag := r.1 }
  (if r.1 then .next else .skipTo .terminator,
    { toChannel := r.2.emit (.tested comparison r.1), state })

def setTimer (m : Machine H) (delay : UInt32) : Flow × Machine H :=
  let m := { m with state := { m.state with delay } }
  if m.state.timerClosed then (.skipTo .resetTimer, m.report (.timerClosed delay m.state.count))
  else (.next, m)

def loadInteger (m : Machine H) (width : Width) (register : Register) (address : UInt32) :
    Flow × Machine H :=
  let r := m.toChannel.readValue width address
  (.next, { toChannel := r.2, state := m.state.onRegisters (·.setInteger register r.1) })

def loadFloat (m : Machine H) (register : Register) (address : UInt32) : Flow × Machine H :=
  let r := m.toChannel.readWord address
  (.next, { toChannel := r.2, state := m.state.onRegisters (·.setFloat register r.1) })

def integerArithmetic (m : Machine H) (arithmetic : Arithmetic) (destination : Register)
    (source : Source) : Flow × Machine H :=
  let operand := m.state.registers.integerOperand source
  let m := { m with state := m.state.onRegisters (·.applyInteger arithmetic destination operand) }
  (.next, if Registers.dividesByZero arithmetic operand then m.report (.dividedByZero destination)
    else m)

/-- Keeps an address as the pointer if the word there lies between the bounds, and else drops the
pointer. -/
def loadPointer (m : Machine H) (lower upper address : UInt32) : Flow × Machine H :=
  let r := m.toChannel.readWord address
  let cached : Bool := lower ≤ r.1 ∧ r.1 ≤ upper
  let state := { m.state with pointer := if cached then address else 0 }
  (.next, { toChannel := r.2.emit (.pointerLoaded address r.1 cached), state })

def runNative (m : Machine H) (code : Bytes) : Flow × Machine H :=
  let (host, events) := Host.runNative m.host code
  (.next, { m with host, log := m.log ++ events })

def corrupt (m : Machine H) (start stop wanted replacement : UInt32) : Flow × Machine H :=
  let r := m.toChannel.corrupt start stop wanted replacement
  (.next, { m with toChannel := r.2.emit (.corrupted r.1) })

/-- A template that is not found loads zero. -/
def search (m : Machine H) (template : Bytes) (index : UInt16) (start stop : UInt32) :
    Flow × Machine H :=
  let r := m.toChannel.findTemplate template index start stop
  (.replace (r.1.getD 0),
    { m with toChannel := if r.1.isSome then r.2 else r.2.emit (.templateNotFound index) })

def call (m : Machine H) (address : UInt32) (arguments : List UInt32) (low high : Register) :
    Flow × Machine H :=
  let r := m.toChannel.call m.state.registers address arguments low high
  (.next, { toChannel := r.2.2, state := m.state.onRegisters fun _ => r.2.1 })

def execute (i : Instruction) (m : Machine H) : Flow × Machine H :=
  match i with
  | .write target width value =>
    m.onTarget target fun m address => m.through (·.writeValue width address value)
  | .writeString target bytes =>
    m.onTarget target fun m address => m.through (·.writeString address bytes)
  | .writeSeries target width value iterations step increment =>
    m.onTarget target fun m address =>
      m.through (·.writeSeries width address value iterations.toNat step increment)
  | .fill target value length =>
    m.onTarget target fun m address => m.through (·.fill address value length)
  | .test comparison target width value upper =>
    m.onTarget target fun m address => m.test comparison width address value upper
  | .timer delay => m.setTimer delay
  | .resetTimer => m.within fun s => { s with delay := 0 }
  | .loadInteger target width register =>
    m.onTarget target fun m address => m.loadInteger width register address
  | .storeInteger target width register =>
    m.onTarget target fun m address =>
      let value := m.state.registers.integer.get register
      m.through (·.writeValue width address value)
  | .loadFloat target register =>
    m.onTarget target fun m address => m.loadFloat register address
  | .storeFloat target register =>
    m.onTarget target fun m address =>
      let value := m.state.registers.float.get register
      m.through (·.writeWord address value)
  | .integerArithmetic arithmetic destination source =>
    m.integerArithmetic arithmetic destination source
  | .floatArithmetic arithmetic destination source =>
    m.within fun s => s.onRegisters fun registers =>
      registers.applyFloat arithmetic destination (registers.floatOperand source)
  | .floatToInteger source destination =>
    m.within fun s => s.onRegisters (·.floatToInteger source destination)
  | .loadPointer target lower upper =>
    m.onTarget target fun m address => m.loadPointer lower upper address
  | .offsetPointer offset => m.within fun s => { s with pointer := s.pointer + offset.toUInt32 }
  | .setPointer address => m.within fun s => { s with pointer := address }
  | .native code => m.runNative code
  | .systemCall code => m.through (·.change (.systemCall code) (Host.systemCall · code))
  | .terminator => m.within State.terminateBlock
  | .noOperation | .timerEnd => (.next, m)
  | .corrupt start stop wanted replacement => m.corrupt start stop wanted replacement
  | .search template index startHigh stopHigh =>
    m.search template index (addressOfHigh startHigh) (addressOfHigh stopHigh)
  | .call address low high _ _ => m.call address i.callArguments low high

end Machine

end LivePatch
