import LivePatch.Machine
import LivePatch.Machine.Tape

namespace LivePatch

namespace Machine

variable {H : Type}

theorem onTarget_ne_replace {m : Machine H} {t : Target}
    {act : Machine H → UInt32 → Flow × Machine H} {address : UInt32}
    (never : ∀ m a, (act m a).1 ≠ .replace address) :
    (m.onTarget t act).1 ≠ .replace address := by
  unfold onTarget
  split
  · exact never _ _
  · exact Flow.noConfusion

/-- Only a search replaces itself in the stream. -/
theorem search_of_replace [Host H] {i : Instruction} {m : Machine H} {address : UInt32}
    (flow : (execute i m).1 = .replace address) :
    ∃ template index startHigh stopHigh, i = .search template index startHigh stopHigh := by
  cases i with
  | search template index startHigh stopHigh => exact ⟨template, index, startHigh, stopHigh, rfl⟩
  | test comparison target width value upper =>
    refine absurd flow (onTarget_ne_replace fun m a => ?_)
    simp only [Machine.test]
    split <;> exact Flow.noConfusion
  | timer delay =>
    simp only [execute, setTimer] at flow
    split at flow <;> cases flow
  | write | writeString | writeSeries | fill | loadInteger | storeInteger | loadFloat | storeFloat
  | loadPointer => exact absurd flow (onTarget_ne_replace fun _ _ => Flow.noConfusion)
  | _ => cases flow

end Machine

/-- A pass under way. -/
structure Dispatch (H : Type) where
  tape : Tape
  machine : Machine H
  /-- Number of instructions executed so far. -/
  instructions : Nat := 0
  /-- Number of blocks skipped so far. -/
  skipped : Nat := 0

/-- What a step leads to. -/
inductive Step (H : Type) where
  | done (d : Dispatch H)
  | failed (error : PassError) (d : Dispatch H)
  | next (d : Dispatch H)

namespace Dispatch

variable {H : Type}

def report (d : Dispatch H) (e : Event) : Dispatch H :=
  { d with machine := d.machine.report e }

/-- Moves on to the line that closes the block, past an instruction of `consumed` bytes. -/
def skipTo (d : Dispatch H) (consumed : Nat) (blockEnd : BlockEnd) : Step H :=
  let opened := d.tape.position
  let tape := d.tape.advance consumed
  let start := tape.position
  match Stream.find? blockEnd.line.toList tape.rest with
  | none => .failed (.unterminatedBlock opened blockEnd) { d with tape }
  | some offset =>
    let d := d.report (.blockSkipped start (start + offset) blockEnd)
    .next { d with tape := tape.advance offset, skipped := d.skipped + 1 }

/-- Turns an instruction of `consumed` bytes into a pointer load, which comes next. -/
def replace (d : Dispatch H) (consumed : Nat) (address : UInt32) : Dispatch H :=
  let d := d.report (.templateReplaced d.tape.position address (consumed - 8))
  { d with tape := d.tape.replace consumed address }

/-- Goes on after an instruction of `consumed` bytes at the position. -/
def follow (d : Dispatch H) (consumed : Nat) : Flow → Step H
  | .next => .next { d with tape := d.tape.advance consumed }
  | .skipTo blockEnd => d.skipTo consumed blockEnd
  | .replace address => .next (d.replace consumed address)

/-- Where an instruction leaves the position. -/
theorem tape_follow {d next : Dispatch H} {consumed : Nat} {flow : Flow}
    (followed : d.follow consumed flow = .next next) :
    (∃ offset, next.tape = (d.tape.advance consumed).advance offset) ∨
      next.tape = d.tape.advance consumed ∨
      ∃ address, flow = .replace address ∧ next.tape = d.tape.replace consumed address := by
  cases flow with
  | next =>
    cases followed
    exact .inr (.inl rfl)
  | skipTo blockEnd =>
    simp only [follow, skipTo] at followed
    split at followed
    · cases followed
    · cases followed
      exact .inl ⟨_, rfl⟩
  | replace address =>
    cases followed
    exact .inr (.inr ⟨address, rfl, rfl⟩)

/-- How the execution of an instruction is reported. -/
def executionEvent (trace : Bool) (position : Nat) (i : Instruction) : Event :=
  if trace then .traced position i else .executed position i

variable [Host H]

/-- Executes the instruction at the position. -/
def perform (trace : Bool) (d : Dispatch H) (i : Instruction) : Flow × Dispatch H :=
  let machine := d.machine.report (executionEvent trace d.tape.position i)
  let (flow, machine) := machine.execute i
  (flow, { d with machine, instructions := d.instructions + 1 })

def step (trace : Bool) (d : Dispatch H) : Step H :=
  if d.tape.remaining % 8 ≠ 0 then
    .failed (.misalignedLength d.tape.position d.tape.remaining) d
  else if d.tape.remaining = 0 then .done d
  else
    match decode d.tape.rest with
    | .error e => .failed (.decode d.tape.position e) d
    | .ok (i, consumed) =>
      let (flow, d) := d.perform trace i
      d.follow consumed flow

theorem step_eq_next_iff {trace : Bool} {d next : Dispatch H} :
    d.step trace = .next next ↔ d.tape.remaining % 8 = 0 ∧ d.tape.remaining ≠ 0 ∧
      ∃ i consumed, decode d.tape.rest = .ok (i, consumed) ∧
        (d.perform trace i).2.follow consumed (d.perform trace i).1 = .next next := by
  unfold step
  split
  · rename_i misaligned
    simp only [reduceCtorEq, false_iff, not_and]
    exact fun aligned => absurd aligned misaligned
  · rename_i aligned
    simp only [ne_eq, Decidable.not_not] at aligned
    split
    · rename_i empty
      simp [empty]
    · rename_i nonempty
      split
      · rename_i e decoded
        simp [decoded]
      · rename_i i consumed decoded
        refine ⟨fun followed => ⟨aligned, nonempty, i, consumed, decoded, followed⟩, ?_⟩
        rintro ⟨-, -, j, n, again, followed⟩
        rw [decoded] at again
        cases again
        exact followed

theorem tape_perform (trace : Bool) (d : Dispatch H) (i : Instruction) :
    (d.perform trace i).2.tape = d.tape := rfl

theorem weight_step_lt {trace : Bool} {d next : Dispatch H} (run : d.step trace = .next next) :
    next.tape.weight < d.tape.weight := by
  obtain ⟨aligned, nonempty, i, consumed, decoded, followed⟩ := step_eq_next_iff.mp run
  have bounds := decode_bounds decoded
  have onward := Tape.weight_advance_lt bounds.1 bounds.2
  rcases tape_follow followed with ⟨offset, moved⟩ | moved | ⟨address, flow, moved⟩
  · rw [moved, tape_perform]
    exact Nat.lt_of_le_of_lt (Tape.weight_advance_le _ _) onward
  · rw [moved, tape_perform]
    exact onward
  · obtain ⟨template, index, startHigh, stopHigh, rfl⟩ := Machine.search_of_replace flow
    have enough : 8 ≤ d.tape.rest.length := by
      have := d.tape.remaining_eq
      omega
    rw [moved, tape_perform]
    exact Tape.weight_replace_lt address enough decoded

/-- Repeats the step to the end; gives the error that stopped it, if any. -/
def run (trace : Bool) (d : Dispatch H) : Option PassError × Dispatch H :=
  match _ : d.step trace with
  | .done d => (none, d)
  | .failed error d => (some error, d)
  | .next d => d.run trace
termination_by d.tape.weight
decreasing_by exact weight_step_lt ‹_›

end Dispatch

/-- Account of a completed pass. -/
structure Summary where
  instructions : Nat
  skippedBlocks : Nat
  /-- Length of the stream after the pass. -/
  streamLength : Nat
  /-- Number of completed passes, this one included. -/
  executionCount : UInt32
deriving DecidableEq

/-- What a pass leaves. -/
structure PassResult (H : Type) where
  outcome : Except PassError Summary
  code : Bytes
  machine : Machine H

/-- One pass over a stream. An error leaves the pass uncounted. -/
def Machine.pass {H : Type} [Host H] (m : Machine H) (trace : Bool) (code : Bytes) : PassResult H :=
  let m := { m with state := m.state.beginPass }
  let m := m.report (.passStarted code.length m.state.count)
  match Dispatch.run trace { tape := .ofBytes code, machine := m } with
  | (some error, d) =>
    let code := d.tape.bytes
    ⟨.error error, code, d.machine.report (.passFailed error ((code.drop error.position).take 8))⟩
  | (none, d) =>
    let code := d.tape.bytes
    let m := { d.machine with state := d.machine.state.finishPass }
    let count := m.state.count
    ⟨.ok ⟨d.instructions, d.skipped, code.length, count⟩, code,
      m.report (.passCompleted d.instructions d.skipped count)⟩

end LivePatch
