import LivePatch.Machine.Run
import LivePatch.Proofs.Host.Bisimulation
import LivePatch.Proofs.Wire.RoundTrip

namespace LivePatch

instance decidableEqOutcome : DecidableEq (Except PassError Summary)
  | .ok a, .ok b => decidable_of_iff (a = b) ⟨congrArg _, Except.ok.inj⟩
  | .error a, .error b => decidable_of_iff (a = b) ⟨congrArg _, Except.error.inj⟩
  | .ok _, .error _ | .error _, .ok _ => isFalse nofun

def Instruction.isSearch : Instruction → Bool
  | search .. => true
  | _ => false

/-- An executed instruction: where it stood, how many bytes it took and how the stream went on. -/
structure Execution where
  position : Nat
  instruction : Instruction
  consumed : Nat
  flow : Flow
deriving DecidableEq

namespace Dispatch

variable {H : Type} [Host H]

/-- What the loop reports has no part in what it executes. -/
theorem perform_alike {K : Type} [Host K] {R : H → K → Prop} {d : Dispatch H} {n : Machine K}
    (alike : d.machine.Alike R n) (bisim : Bisimulation R) (trace : Bool) (i : Instruction) :
    (d.perform trace i).1 = (n.execute i).1 ∧
      (d.perform trace i).2.machine.Alike R (n.execute i).2 := by
  have reported : (d.machine.report (executionEvent trace d.tape.position i)).Alike R n :=
    ⟨alike.state, alike.host⟩
  have executed := reported.execute bisim i
  exact ⟨executed.answer, executed.after⟩

theorem perform_twin {K : Type} [Host K] {R : H → K → Prop} {d : Dispatch H} {twin : Dispatch K}
    (alike : d.machine.Alike R twin.machine) (bisim : Bisimulation R) (trace traceTwin : Bool)
    (i : Instruction) :
    (d.perform trace i).1 = (twin.perform traceTwin i).1 ∧
      (d.perform trace i).2.machine.Alike R (twin.perform traceTwin i).2.machine := by
  have reported : d.machine.Alike R
      (twin.machine.report (executionEvent traceTwin twin.tape.position i)) :=
    ⟨alike.state, alike.host⟩
  exact perform_alike reported bisim trace i

/-- `e` is what the step at `d` executes. -/
structure Executes (trace : Bool) (d : Dispatch H) (e : Execution) : Prop where
  aligned : d.tape.rest.length % 8 = 0
  decoded : decode d.tape.rest = .ok (e.instruction, e.consumed)
  position_eq : e.position = d.tape.position
  flow_eq : (d.perform trace e.instruction).1 = e.flow

/-- The step at `d` executes `e` and goes on. -/
inductive Moves (trace : Bool) (d : Dispatch H) : Execution → Dispatch H → Prop
  | onward {e} (executed : d.Executes trace e) (flow : e.flow = .next) :
      Moves trace d e
        { (d.perform trace e.instruction).2 with tape := d.tape.advance e.consumed }
  | skip {e blockEnd offset} (executed : d.Executes trace e) (flow : e.flow = .skipTo blockEnd)
      (found : Stream.find? blockEnd.line.toList (d.tape.rest.drop e.consumed) = some offset) :
      Moves trace d e
        { (d.perform trace e.instruction).2.report
            (.blockSkipped (d.tape.advance e.consumed).position
              ((d.tape.advance e.consumed).position + offset) blockEnd) with
          tape := (d.tape.advance e.consumed).advance offset
          skipped := d.skipped + 1 }
  | replace {e address} (executed : d.Executes trace e) (flow : e.flow = .replace address) :
      Moves trace d e ((d.perform trace e.instruction).2.replace e.consumed address)

/-- The step at `d` ends the pass: the error, if it is one, what was still executed, and what is
left. -/
inductive Stops (trace : Bool) (d : Dispatch H) :
    Option PassError → List Execution → Dispatch H → Prop
  | ended (empty : d.tape.rest = []) : Stops trace d none [] d
  | misaligned (broken : d.tape.rest.length % 8 ≠ 0) :
      Stops trace d (some (.misalignedLength d.tape.position d.tape.rest.length)) [] d
  | undecodable {cause} (aligned : d.tape.rest.length % 8 = 0) (nonempty : d.tape.rest ≠ [])
      (decoded : decode d.tape.rest = .error cause) :
      Stops trace d (some (.decode d.tape.position cause)) [] d
  | unterminated {e blockEnd} (executed : d.Executes trace e) (flow : e.flow = .skipTo blockEnd)
      (missing : Stream.find? blockEnd.line.toList (d.tape.rest.drop e.consumed) = none) :
      Stops trace d (some (.unterminatedBlock d.tape.position blockEnd)) [e]
        { (d.perform trace e.instruction).2 with tape := d.tape.advance e.consumed }

theorem Moves.executed {trace : Bool} {d next : Dispatch H} {e : Execution}
    (moved : d.Moves trace e next) : d.Executes trace e := by
  cases moved with
  | onward executed | skip executed | replace executed => exact executed

theorem Executes.nonempty {trace : Bool} {d : Dispatch H} {e : Execution}
    (executed : d.Executes trace e) : d.tape.rest ≠ [] := by
  intro empty
  have bounds := decode_bounds executed.decoded
  rw [empty, List.length_nil] at bounds
  omega

theorem Executes.step_eq {trace : Bool} {d : Dispatch H} {e : Execution}
    (executed : d.Executes trace e) :
    d.step trace = (d.perform trace e.instruction).2.follow e.consumed e.flow := by
  have count := d.tape.remaining_eq
  have some_left : d.tape.rest.length ≠ 0 := by
    simpa using executed.nonempty
  unfold step
  rw [if_neg (by simp [count, executed.aligned]), if_neg (by omega), executed.decoded]
  simp only [executed.flow_eq]

theorem Moves.step_eq {trace : Bool} {d next : Dispatch H} {e : Execution}
    (moved : d.Moves trace e next) : d.step trace = .next next := by
  rw [moved.executed.step_eq]
  cases moved with
  | onward executed flow =>
    rw [flow]
    rfl
  | skip executed flow found =>
    rw [flow]
    simp only [follow, skipTo]
    have sameRest : ((d.perform trace e.instruction).2.tape.advance e.consumed).rest =
      d.tape.rest.drop e.consumed := rfl
    rw [sameRest, found]
    rfl
  | replace executed flow =>
    rw [flow]
    rfl

theorem Stops.step_eq {trace : Bool} {d last : Dispatch H} {error : Option PassError}
    {es : List Execution} (stopped : d.Stops trace error es last) :
    d.step trace = match error with
      | none => .done last
      | some error => .failed error last := by
  have count := d.tape.remaining_eq
  cases stopped with
  | ended empty =>
    rw [empty, List.length_nil] at count
    unfold step
    rw [if_neg (by omega), if_pos count]
  | misaligned broken =>
    unfold step
    rw [if_pos (by rwa [count]), count]
  | undecodable aligned nonempty decoded =>
    have some_left : d.tape.rest.length ≠ 0 := by
      simpa using nonempty
    unfold step
    rw [if_neg (by omega), if_neg (by omega), decoded]
  | unterminated executed flow missing =>
    rw [executed.step_eq, flow]
    simp only [follow, skipTo, tape_perform, Tape.advance, missing]

theorem moves_or_stops (trace : Bool) (d : Dispatch H) :
    (∃ e next, d.Moves trace e next) ∨ ∃ error es last, d.Stops trace error es last := by
  by_cases aligned : d.tape.rest.length % 8 = 0
  · by_cases empty : d.tape.rest = []
    · exact .inr ⟨_, _, _, .ended empty⟩
    · cases decoded : decode d.tape.rest with
      | error cause => exact .inr ⟨_, _, _, .undecodable aligned empty decoded⟩
      | ok found =>
        obtain ⟨i, consumed⟩ := found
        have executed : d.Executes trace ⟨d.tape.position, i, consumed, (d.perform trace i).1⟩ :=
          ⟨aligned, decoded, rfl, rfl⟩
        cases flow : (d.perform trace i).1 with
        | next => exact .inl ⟨_, _, .onward executed flow⟩
        | replace address => exact .inl ⟨_, _, .replace executed flow⟩
        | skipTo blockEnd =>
          cases found : Stream.find? blockEnd.line.toList (d.tape.rest.drop consumed) with
          | none => exact .inr ⟨_, _, _, .unterminated executed flow found⟩
          | some offset => exact .inl ⟨_, _, .skip executed flow found⟩
  · exact .inr ⟨_, _, _, .misaligned aligned⟩

/-- What the step at `d` executes, if it gets that far. -/
def execution? (trace : Bool) (d : Dispatch H) : Option Execution :=
  if d.tape.rest.length % 8 = 0 then
    match decode d.tape.rest with
    | .ok (i, consumed) => some ⟨d.tape.position, i, consumed, (d.perform trace i).1⟩
    | .error _ => none
  else none

/-- Everything that is executed from `d` on, in order. -/
def executions (trace : Bool) (d : Dispatch H) : List Execution :=
  match _ : d.step trace with
  | .next next => (d.execution? trace).toList ++ next.executions trace
  | _ => (d.execution? trace).toList
termination_by d.tape.weight
decreasing_by exact weight_step_lt ‹_›

theorem Executes.execution?_eq {trace : Bool} {d : Dispatch H} {e : Execution}
    (executed : d.Executes trace e) : d.execution? trace = some e := by
  simp only [execution?, executed.aligned, executed.decoded, executed.flow_eq,
    ← executed.position_eq, if_true]

theorem exists_moves {trace : Bool} {d next : Dispatch H} (step : d.step trace = .next next) :
    ∃ e, d.Moves trace e next := by
  rcases moves_or_stops trace d with ⟨e, other, moved⟩ | ⟨error, es, last, stopped⟩
  · rw [moved.step_eq] at step
    cases step
    exact ⟨e, moved⟩
  · rw [stopped.step_eq] at step
    cases error <;> cases step

theorem exists_stops {trace : Bool} {d last : Dispatch H}
    (step : d.step trace = .done last ∨ ∃ error, d.step trace = .failed error last) :
    ∃ error es, d.Stops trace error es last := by
  rcases moves_or_stops trace d with ⟨e, next, moved⟩ | ⟨error, es, other, stopped⟩
  · rw [moved.step_eq] at step
    rcases step with same | ⟨_, same⟩ <;> cases same
  · rw [stopped.step_eq] at step
    cases error <;> rcases step with same | ⟨_, same⟩ <;> cases same <;> exact ⟨_, es, stopped⟩

theorem moves_iff {trace : Bool} {d next : Dispatch H} {e : Execution} :
    d.Moves trace e next ↔ d.execution? trace = some e ∧ d.step trace = .next next := by
  constructor
  · intro moved
    exact ⟨moved.executed.execution?_eq, moved.step_eq⟩
  · rintro ⟨executed, step⟩
    obtain ⟨other, moved⟩ := exists_moves step
    rw [moved.executed.execution?_eq] at executed
    cases executed
    exact moved

theorem Stops.execution?_eq {trace : Bool} {d last : Dispatch H} {error : Option PassError}
    {es : List Execution} (stopped : d.Stops trace error es last) :
    (d.execution? trace).toList = es := by
  cases stopped with
  | ended empty =>
    rw [execution?, empty]
    rfl
  | misaligned broken => rw [execution?, if_neg broken, Option.toList_none]
  | undecodable aligned nonempty decoded =>
    rw [execution?, if_pos aligned, decoded]
    rfl
  | unterminated executed flow missing => rw [executed.execution?_eq, Option.toList_some]

/-- From `d` on, `es` are executed, and then the pass stops. -/
inductive Runs (trace : Bool) : Dispatch H → List Execution → Option PassError → Dispatch H → Prop
  | stop {d error es last} : d.Stops trace error es last → Runs trace d es error last
  | move {d e next es error last} : d.Moves trace e next → Runs trace next es error last →
      Runs trace d (e :: es) error last

theorem run_eq_match (trace : Bool) (d : Dispatch H) :
    d.run trace = match d.step trace with
      | .done last => (none, last)
      | .failed error last => (some error, last)
      | .next next => next.run trace := by
  rw [run]
  split <;> simp only [*]

theorem executions_eq_match (trace : Bool) (d : Dispatch H) :
    d.executions trace = match d.step trace with
      | .next next => (d.execution? trace).toList ++ next.executions trace
      | _ => (d.execution? trace).toList := by
  rw [executions]
  split <;> simp only [*]

theorem Runs.run_eq {trace : Bool} {d last : Dispatch H} {es : List Execution}
    {error : Option PassError} (runs : Runs trace d es error last) :
    d.run trace = (error, last) := by
  induction runs with
  | @stop d error es last stopped =>
    rw [run_eq_match, stopped.step_eq]
    cases error <;> rfl
  | move moved rest ih =>
    rw [run_eq_match, moved.step_eq]
    exact ih

theorem Runs.executions_eq {trace : Bool} {d last : Dispatch H} {es : List Execution}
    {error : Option PassError} (runs : Runs trace d es error last) :
    d.executions trace = es := by
  induction runs with
  | @stop d error es last stopped =>
    rw [executions_eq_match, stopped.step_eq, stopped.execution?_eq]
    cases error <;> rfl
  | move moved rest ih =>
    rw [executions_eq_match, moved.step_eq, moved.executed.execution?_eq]
    exact congrArg (_ :: ·) ih

theorem exists_runs (trace : Bool) (d : Dispatch H) :
    ∃ es error last, Runs trace d es error last := by
  rcases moves_or_stops trace d with ⟨e, next, moved⟩ | ⟨error, es, last, stopped⟩
  · have lower := weight_step_lt moved.step_eq
    obtain ⟨es, error, last, rest⟩ := exists_runs trace next
    exact ⟨e :: es, error, last, .move moved rest⟩
  · exact ⟨es, error, last, .stop stopped⟩
termination_by d.tape.weight

/-- Every pass is a chain of moves that ends with a stop. -/
theorem runs_run (trace : Bool) (d : Dispatch H) :
    Runs trace d (d.executions trace) (d.run trace).1 (d.run trace).2 := by
  obtain ⟨es, error, last, runs⟩ := exists_runs trace d
  rw [runs.executions_eq, runs.run_eq]
  exact runs

/-- The loop comes from `start` to `d` by executing `es`. -/
inductive Reaches (trace : Bool) (start : Dispatch H) : List Execution → Dispatch H → Prop
  | start : Reaches trace start [] start
  | move {es d e next} : Reaches trace start es d → d.execution? trace = some e →
      d.step trace = .next next → Reaches trace start (es ++ [e]) next

theorem Runs.reaches_stop {trace : Bool} {start d last : Dispatch H} {done es : List Execution}
    {error : Option PassError} (runs : Runs trace d es error last) :
    Reaches trace start done d → ∃ before final stopping,
      Reaches trace start (done ++ before) stopping ∧ stopping.Stops trace error final last ∧
        es = before ++ final := by
  induction runs generalizing done with
  | @stop d error es last stopped =>
    intro reach
    exact ⟨[], es, d, by rwa [List.append_nil], stopped, rfl⟩
  | @move d e next es error last moved rest ih =>
    intro reach
    have reached := reach.move moved.executed.execution?_eq moved.step_eq
    obtain ⟨before, final, stopping, further, stopped, split⟩ := ih reached
    refine ⟨e :: before, final, stopping, ?_, stopped, by rw [split, List.cons_append]⟩
    rwa [List.append_assoc, List.singleton_append] at further

/-- A pass stops at the end of what it executes, except that the instruction before a missing
closing line is still executed. -/
theorem run_reaches_stop (trace : Bool) (d : Dispatch H) :
    ∃ before final stopping, Reaches trace d before stopping ∧
      stopping.Stops trace (d.run trace).1 final (d.run trace).2 ∧
      d.executions trace = before ++ final := by
  have reach : Reaches trace d [] d := .start
  exact (runs_run trace d).reaches_stop reach

theorem Moves.instructions_eq {trace : Bool} {d next : Dispatch H} {e : Execution}
    (moved : d.Moves trace e next) : next.instructions = d.instructions + 1 := by
  cases moved <;> rfl

theorem Stops.instructions_eq {trace : Bool} {d last : Dispatch H} {error : Option PassError}
    {es : List Execution} (stopped : d.Stops trace error es last) :
    last.instructions = d.instructions + es.length := by
  cases stopped <;> rfl

theorem Runs.instructions_eq {trace : Bool} {d last : Dispatch H} {es : List Execution}
    {error : Option PassError} (runs : Runs trace d es error last) :
    last.instructions = d.instructions + es.length := by
  induction runs with
  | stop stopped => exact stopped.instructions_eq
  | move moved rest ih =>
    have counted := moved.instructions_eq
    rw [ih, counted, List.length_cons]
    omega

end Dispatch

variable {H : Type}

/-- A pass over `code` before its first step. -/
def Machine.opening (m : Machine H) (code : Bytes) : Dispatch H where
  tape := .ofBytes code
  machine := { m with state := m.state.beginPass }.report
    (.passStarted code.length m.state.beginPass.count)

namespace Dispatch

/-- The outcome of a pass that has stopped at `d`. -/
def outcome (d : Dispatch H) : Option PassError → Except PassError Summary
  | some error => .error error
  | none => .ok ⟨d.instructions, d.skipped, d.tape.bytes.length, d.machine.state.finishPass.count⟩

/-- The state that such a pass leaves. -/
def closingState (d : Dispatch H) : Option PassError → State
  | some _ => d.machine.state
  | none => d.machine.state.finishPass

theorem closingState_congr {K : Type} {d : Dispatch H} {twin : Dispatch K}
    (same : d.machine.state = twin.machine.state) (error : Option PassError) :
    d.closingState error = twin.closingState error := by
  cases error with
  | some error => exact same
  | none => exact congrArg State.finishPass same

end Dispatch

namespace Machine

variable [Host H]

/-- Everything that a run executes, in order. -/
def executions (m : Machine H) (config : Config) (code : Bytes) : List Execution :=
  ((m.gated config).opening code).executions config.trace

theorem pass_of_run {m : Machine H} {trace : Bool} {code : Bytes} {error : Option PassError}
    {d : Dispatch H} (stopped : (m.opening code).run trace = (error, d)) :
    (m.pass trace code).outcome = d.outcome error ∧ (m.pass trace code).code = d.tape.bytes ∧
      (m.pass trace code).machine.state = d.closingState error ∧
      (m.pass trace code).machine.host = d.machine.host := by
  unfold opening at stopped
  simp only [pass, stopped]
  cases error with
  | none => exact ⟨rfl, rfl, rfl, rfl⟩
  | some error => exact ⟨rfl, rfl, rfl, rfl⟩

/-- The state that a run leaves whose pass ends in `s`. -/
def settled (m : Machine H) (config : Config) (s : State) : State :=
  if config.live then s else s.restoring m.state

/-- What a run gives, read off the chain of moves that it makes. -/
theorem run_of_runs {m : Machine H} {config : Config} {code : Bytes} {es : List Execution}
    {error : Option PassError} {last : Dispatch (Gate H)}
    (runs : Dispatch.Runs config.trace ((m.gated config).opening code) es error last) :
    m.executions config code = es ∧ (m.run config code).outcome = last.outcome error ∧
      (m.run config code).code = last.tape.bytes ∧
      (m.run config code).machine.state = m.settled config (last.closingState error) ∧
      (m.run config code).machine.host = last.machine.host.host := by
  obtain ⟨outcome, bytes, state, host⟩ := pass_of_run runs.run_eq
  refine ⟨runs.executions_eq, outcome, bytes, ?_, ?_⟩
  · simp only [run, settled, ← state]
    split <;> rfl
  · simp only [run, ← host]
    split <;> rfl

theorem run_eq_of_outcome_error {m : Machine H} {config : Config} {code : Bytes} {error : PassError}
    (failed : (m.run config code).outcome = .error error) :
    (((m.gated config).opening code).run config.trace).1 = some error := by
  have runs := ((m.gated config).opening code).runs_run config.trace
  rw [(run_of_runs runs).2.1] at failed
  cases stopped : (((m.gated config).opening code).run config.trace).1 with
  | none =>
    rw [stopped] at failed
    cases failed
  | some other =>
    rw [stopped] at failed
    cases failed
    rfl

end Machine

end LivePatch
