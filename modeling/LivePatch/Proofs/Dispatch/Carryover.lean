import LivePatch.Proofs.Dispatch.DryRun

namespace LivePatch

/-- The instruction sets the delay of the timer. -/
def Instruction.setsDelay : Instruction → Bool
  | timer _ | resetTimer => true
  | _ => false

variable {H : Type}

namespace Machine

def withDelay (m : Machine H) (delay : UInt32) : Machine H :=
  { m with state := { m.state with delay } }

/-- The machine with another delay, unless its own has been set. -/
def keepDelay (m : Machine H) (isSet : Bool) (delay : UInt32) : Machine H :=
  if isSet then m else m.withDelay delay

theorem onTarget_withDelay {m : Machine H} {t : Target} {delay : UInt32}
    {act : Machine H → UInt32 → Flow × Machine H}
    (acts : ∀ address, act (m.withDelay delay) address =
      ((act m address).1, (act m address).2.withDelay delay)) :
    (m.withDelay delay).onTarget t act =
      ((m.onTarget t act).1, (m.onTarget t act).2.withDelay delay) := by
  have same : (m.withDelay delay).state.resolve? t = m.state.resolve? t := rfl
  unfold onTarget
  rw [same]
  split
  · exact acts _
  · rfl

theorem integerArithmetic_withDelay (m : Machine H) (delay : UInt32) (arithmetic : Arithmetic)
    (destination : Register) (source : Source) :
    (m.withDelay delay).integerArithmetic arithmetic destination source =
      ((m.integerArithmetic arithmetic destination source).1,
        (m.integerArithmetic arithmetic destination source).2.withDelay delay) := by
  have same : (m.withDelay delay).state.registers = m.state.registers := rfl
  simp only [integerArithmetic, same]
  split <;> rfl

variable [Host H]

theorem search_withDelay (m : Machine H) (delay : UInt32) (template : Bytes) (index : UInt16)
    (start stop : UInt32) :
    (m.withDelay delay).search template index start stop =
      ((m.search template index start stop).1,
        (m.search template index start stop).2.withDelay delay) := rfl

theorem execute_withDelay_of_unset (m : Machine H) (delay : UInt32) {i : Instruction}
    (unset : i.setsDelay = false) :
    (m.withDelay delay).execute i = ((m.execute i).1, (m.execute i).2.withDelay delay) := by
  cases i with
  | timer | resetTimer => cases unset
  | integerArithmetic arithmetic destination source =>
    exact m.integerArithmetic_withDelay delay arithmetic destination source
  | search template index => exact m.search_withDelay delay template index _ _
  | write | writeString | writeSeries | fill | test | loadInteger | storeInteger | loadFloat
  | storeFloat | loadPointer =>
    simp only [execute]
    exact onTarget_withDelay fun _ => rfl
  | _ => rfl

/-- An instruction that does not set the delay does not look at it either, and one that sets it does so
without regard to what it was. -/
theorem execute_withDelay (m : Machine H) (delay : UInt32) (i : Instruction) :
    (m.withDelay delay).execute i =
      ((m.execute i).1, (m.execute i).2.keepDelay i.setsDelay delay) := by
  cases sets : i.setsDelay with
  | false => exact m.execute_withDelay_of_unset delay sets
  | true =>
    cases i with
    | timer | resetTimer => rfl
    | _ => cases sets

end Machine

namespace Dispatch

def withDelay (d : Dispatch H) (delay : UInt32) : Dispatch H :=
  { d with machine := d.machine.withDelay delay }

def keepDelay (d : Dispatch H) (isSet : Bool) (delay : UInt32) : Dispatch H :=
  { d with machine := d.machine.keepDelay isSet delay }

theorem host_keepDelay (d : Dispatch H) (isSet : Bool) (delay : UInt32) :
    (d.keepDelay isSet delay).machine.host = d.machine.host := by
  cases isSet <;> rfl

theorem outcome_keepDelay (d : Dispatch H) (isSet : Bool) (delay : UInt32)
    (error : Option PassError) : (d.keepDelay isSet delay).outcome error = d.outcome error := by
  cases isSet <;> cases error <;> rfl

theorem closingState_keepDelay (d : Dispatch H) (isSet : Bool) (delay : UInt32)
    (error : Option PassError) :
    (d.keepDelay isSet delay).closingState error = { d.closingState error with
      delay := if isSet then (d.closingState error).delay else delay } := by
  cases isSet <;> cases error <;> rfl

variable [Host H] {trace : Bool}

theorem perform_withDelay (trace : Bool) (d : Dispatch H) (delay : UInt32) (i : Instruction) :
    (d.withDelay delay).perform trace i =
      ((d.perform trace i).1, (d.perform trace i).2.keepDelay i.setsDelay delay) := by
  have executed := (d.machine.report (executionEvent trace d.tape.position i)).execute_withDelay delay i
  have reported : (d.withDelay delay).machine.report (executionEvent trace d.tape.position i) =
    (d.machine.report (executionEvent trace d.tape.position i)).withDelay delay := rfl
  simp only [perform]
  rw [show (d.withDelay delay).tape = d.tape from rfl, reported, executed]
  rfl

theorem Executes.withDelay {d : Dispatch H} {e : Execution} (executed : d.Executes trace e)
    (delay : UInt32) : (d.withDelay delay).Executes trace e := by
  refine ⟨executed.aligned, executed.decoded, executed.position_eq, ?_⟩
  rw [perform_withDelay]
  exact executed.flow_eq

theorem Moves.withDelay {d next : Dispatch H} {e : Execution} (moved : d.Moves trace e next)
    (delay : UInt32) :
    (d.withDelay delay).Moves trace e (next.keepDelay e.instruction.setsDelay delay) := by
  have executes := moved.executed.withDelay delay
  have performed := perform_withDelay trace d delay e.instruction
  cases moved with
  | onward executed flow =>
    have moves := Moves.onward executes flow
    rw [performed] at moves
    exact moves
  | skip executed flow found =>
    have moves := Moves.skip executes flow found
    rw [performed] at moves
    cases sets : e.instruction.setsDelay <;> rw [sets] at moves <;> exact moves
  | replace executed flow =>
    have moves := Moves.replace executes flow
    rw [performed] at moves
    cases sets : e.instruction.setsDelay <;> rw [sets] at moves <;> exact moves

theorem Stops.withDelay {d last : Dispatch H} {error : Option PassError} {es : List Execution}
    (stopped : d.Stops trace error es last) (delay : UInt32) :
    (d.withDelay delay).Stops trace error es
      (last.keepDelay (es.any (·.instruction.setsDelay)) delay) := by
  cases stopped with
  | ended empty => exact .ended empty
  | misaligned broken => exact .misaligned broken
  | undecodable aligned nonempty decoded => exact .undecodable aligned nonempty decoded
  | @unterminated e blockEnd executed flow missing =>
    have stops := Stops.unterminated (executed.withDelay delay) flow missing
    rw [perform_withDelay] at stops
    rw [List.any_cons, List.any_nil, Bool.or_false]
    exact stops

/-- A pass with another delay takes the same course, and once the delay is set the two are one. -/
theorem Runs.withDelay {d last : Dispatch H} {error : Option PassError} {es : List Execution}
    (runs : Runs trace d es error last) (delay : UInt32) :
    Runs trace (d.withDelay delay) es error
      (last.keepDelay (es.any (·.instruction.setsDelay)) delay) := by
  induction runs with
  | stop stopped => exact .stop (stopped.withDelay delay)
  | @move d e next es error last moved rest ih =>
    have moves := moved.withDelay delay
    rw [List.any_cons]
    cases sets : e.instruction.setsDelay with
    | true =>
      rw [sets] at moves
      exact .move moves rest
    | false =>
      rw [sets] at moves
      exact .move moves ih

end Dispatch

namespace Machine

variable [Host H]

/-- A pass from another delay: the same, but that the delay is still the other one if nothing has set
it. -/
theorem pass_withDelay (m : Machine H) (delay : UInt32) (trace : Bool) (code : Bytes) :
    let r := m.pass trace code
    let s := (m.withDelay delay).pass trace code
    let isSet := ((m.opening code).executions trace).any (·.instruction.setsDelay)
    ((m.withDelay delay).opening code).executions trace = (m.opening code).executions trace ∧
      s.outcome = r.outcome ∧ s.code = r.code ∧ s.machine.host = r.machine.host ∧
      s.machine.state =
        { r.machine.state with delay := if isSet then r.machine.state.delay else delay } := by
  intro r s isSet
  obtain ⟨es, error, last, runs⟩ := (m.opening code).exists_runs trace
  have runsTwin : Dispatch.Runs trace ((m.withDelay delay).opening code) es error _ :=
    runs.withDelay delay
  obtain ⟨outcome, bytes, state, host⟩ := pass_of_run runs.run_eq
  obtain ⟨outcomeTwin, bytesTwin, stateTwin, hostTwin⟩ := pass_of_run runsTwin.run_eq
  refine ⟨?_, ?_, bytesTwin.trans bytes.symm, ?_, ?_⟩
  · rw [runsTwin.executions_eq, runs.executions_eq]
  · rw [outcomeTwin, outcome, Dispatch.outcome_keepDelay]
  · rw [hostTwin, host, Dispatch.host_keepDelay]
  · rw [stateTwin, state, Dispatch.closingState_keepDelay]
    simp only [isSet, runs.executions_eq]

/-- A pass that does not set the delay leaves it as it was. -/
theorem delay_pass {m : Machine H} {trace : Bool} {code : Bytes}
    (unset : ((m.opening code).executions trace).any (·.instruction.setsDelay) = false) :
    (m.pass trace code).machine.state.delay = m.state.delay := by
  -- From the delay that it has anyway, it leaves that delay.
  have state := (m.pass_withDelay m.state.delay trace code).2.2.2.2
  rw [unset] at state
  have delay := congrArg State.delay state
  exact delay

/-- Of what a live run finds in the state, only the registers and the counter have a part in it. It leaves
the same state whatever the flag and the pointer were, and the delay too, unless it executes nothing that
sets it; then the delay stays what it was. -/
theorem run_forgets_last_pass (m n : Machine H) {config : Config} (live : config.live = true)
    (code : Bytes) (registers : m.state.registers = n.state.registers)
    (count : m.state.count = n.state.count) (host : m.host = n.host) :
    let r := m.run config code
    let s := n.run config code
    m.executions config code = n.executions config code ∧ r.outcome = s.outcome ∧
      r.machine.host = s.machine.host ∧ r.code = s.code ∧
      r.machine.state.flag = s.machine.state.flag ∧
      r.machine.state.pointer = s.machine.state.pointer ∧
      r.machine.state.registers = s.machine.state.registers ∧
      r.machine.state.count = s.machine.state.count ∧
      ((∃ e ∈ m.executions config code, e.instruction.setsDelay = true) →
        r.machine.state.delay = s.machine.state.delay) ∧
      ((∀ e ∈ m.executions config code, e.instruction.setsDelay = false) →
        r.machine.state.delay = m.state.delay ∧ s.machine.state.delay = n.state.delay) := by
  intro r s
  obtain ⟨executed, outcome, bytes, state, reached⟩ := m.run_of_live live config.trace code
  obtain ⟨executedTwin, outcomeTwin, bytesTwin, stateTwin, reachedTwin⟩ :=
    n.run_of_live live config.trace code
  -- A new pass drops flag and pointer, so that what is left of the difference is the delay.
  have start : n.state.beginPass = (m.withDelay n.state.delay).state.beginPass := by
    simp only [State.beginPass, withDelay, registers, count]
  obtain ⟨sameExecuted, sameOutcome, sameBytes, alike⟩ :=
    pass_alike (Bisimulation.eq H) start host.symm config.trace config.trace code
  obtain ⟨delayedExecuted, delayedOutcome, delayedBytes, delayedHost, delayedState⟩ :=
    m.pass_withDelay n.state.delay config.trace code
  have final : s.machine.state = { r.machine.state with
      delay := if (m.executions config code).any (·.instruction.setsDelay) then r.machine.state.delay
        else n.state.delay } := by
    rw [stateTwin, alike.state, delayedState, executed, state]
  refine ⟨?_, ?_, ?_, ?_, ?_, ?_, ?_, ?_, ?_, ?_⟩
  · rw [executed, executedTwin, sameExecuted, delayedExecuted]
  · rw [outcome, outcomeTwin, sameOutcome, delayedOutcome]
  · rw [reached, reachedTwin, alike.host, delayedHost]
  · rw [bytes, bytesTwin, sameBytes, delayedBytes]
  · rw [final]
  · rw [final]
  · rw [final]
  · rw [final]
  · intro sets
    rw [final, List.any_eq_true.mpr sets]
    rfl
  · intro unset
    have isUnset : (m.executions config code).any (·.instruction.setsDelay) = false := by
      rw [List.any_eq_false]
      intro e member
      rw [unset e member]
      exact Bool.false_ne_true
    refine ⟨?_, ?_⟩
    · rw [state]
      rw [executed] at isUnset
      exact delay_pass isUnset
    · rw [final, isUnset]
      rfl

/-- A live run that tests, loads a pointer and stores, from states that differ in all that it forgets; and
one that sets the delay on top. -/
theorem run_forgets_last_pass_stale :
    let stale : Machine Memory :=
      { host := {}, state := { flag := true, pointer := 0x80, delay := 7, count := 3 } }
    let fresh : Machine Memory := { host := {}, state := { count := 3 } }
    let plain := (Instruction.test .equal ⟨.relative, 16⟩ .word 1 0).encode ++
      (Instruction.write ⟨.relative, 4⟩ .word 9).encode ++ (Instruction.setPointer 0x40).encode
    let timed := plain ++ (Instruction.timer 2).encode ++ resetTimerLine.toList
    (stale.run {} plain).outcome = .ok ⟨3, 0, 40, 4⟩ ∧ (fresh.run {} plain).outcome = .ok ⟨3, 0, 40, 4⟩ ∧
      (stale.run {} plain).machine.host = (fresh.run {} plain).machine.host ∧
      (stale.run {} plain).machine.state.pointer = (fresh.run {} plain).machine.state.pointer ∧
      (stale.run {} plain).machine.state.delay = 7 ∧ (fresh.run {} plain).machine.state.delay = 0 ∧
      (stale.run {} timed).outcome = .ok ⟨5, 1, 56, 4⟩ ∧ (fresh.run {} timed).outcome = .ok ⟨5, 1, 56, 4⟩ ∧
      (stale.run {} timed).machine.state.delay = (fresh.run {} timed).machine.state.delay := by
  intro stale fresh plain timed
  have first : (stale.run {} plain).outcome = .ok ⟨3, 0, 40, 4⟩ := by decide +kernel
  have second : (stale.run {} timed).outcome = .ok ⟨5, 1, 56, 4⟩ := by decide +kernel
  have unset : ∀ e ∈ stale.executions {} plain, e.instruction.setsDelay = false := by decide +kernel
  have sets : ∃ e ∈ stale.executions {} timed, e.instruction.setsDelay = true := by decide +kernel
  obtain ⟨_, outcome, host, _, _, pointer, _, _, _, delays⟩ :=
    run_forgets_last_pass stale fresh (rfl : ({} : Config).live = true) plain rfl rfl rfl
  obtain ⟨_, outcomeTimed, _, _, _, _, _, _, delaysTimed, _⟩ :=
    run_forgets_last_pass stale fresh (rfl : ({} : Config).live = true) timed rfl rfl rfl
  exact ⟨first, outcome.symm.trans first, host, pointer, (delays unset).1, (delays unset).2, second,
    outcomeTimed.symm.trans second, delaysTimed sets⟩

end Machine

end LivePatch
