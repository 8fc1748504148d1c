import Mathlib.Algebra.GroupWithZero.Nat
import LivePatch.Proofs.Dispatch.Budget
import LivePatch.Proofs.Machine.Reports

namespace LivePatch

namespace Event

def isNamed (level : Level) (message : String) (e : Event) : Bool :=
  e.level = level ∧ e.message = message

/-- Messages of which account is kept. -/
def counted : List String :=
  ["execute", "block skipped", "search template rewritten"]

end Event

/-- What an instruction cuts out of the stream. -/
def Execution.cut (e : Execution) : List Nat :=
  match e.flow with
  | .next | .skipTo _ => []
  | .replace _ => [e.consumed - 8]

/-- What is reported about the way on after `e`, if it leads to `position`. -/
def Execution.turning (e : Execution) (position : Nat) : List Event :=
  match e.flow with
  | .next => []
  | .skipTo blockEnd => [.blockSkipped (e.position + e.consumed) position blockEnd]
  | .replace address => [.templateReplaced e.position address (e.consumed - 8)]

namespace Dispatch

variable {H : Type}

/-- What is reported of the error of a pass that has stopped at `d`. -/
def failure (d : Dispatch H) : Option PassError → List Event
  | some error => [.passFailed error ((d.tape.bytes.drop error.position).take 8)]
  | none => []

variable [Host H]

/-- The pass as it stands at each step from `d` on. -/
def stages (trace : Bool) (d : Dispatch H) : List (Dispatch H) :=
  match _ : d.step trace with
  | .next next => d :: next.stages trace
  | _ => [d]
termination_by d.tape.weight
decreasing_by exact weight_step_lt ‹_›

/-- The step at `d` executes an integer division whose operand is zero. -/
def dividesByZero (trace : Bool) (d : Dispatch H) : Bool :=
  match d.execution? trace with
  | some ⟨_, .integerArithmetic .divide _ source, _, _⟩ =>
    d.machine.state.registers.integerOperand source = 0
  | _ => false

/-- The step at `d` skips a block. -/
def skips (trace : Bool) (d : Dispatch H) : Bool :=
  match d.execution? trace, d.step trace with
  | some ⟨_, _, _, .skipTo _⟩, .next _ => true
  | _, _ => false

/-- What the step at `d` reports of the instruction that it executes. -/
def executed (trace : Bool) (d : Dispatch H) : List Event :=
  (d.execution? trace).toList.map fun e => executionEvent trace e.position e.instruction

/-- What the step at `d` reports of a division by zero. -/
def warned (trace : Bool) (d : Dispatch H) : List Event :=
  (d.execution? trace).toList.flatMap fun e => d.machine.warnings e.instruction

/-- What the step at `d` reports of the way on. -/
def turned (trace : Bool) (d : Dispatch H) : List Event :=
  match d.execution? trace, d.step trace with
  | some e, .next next => e.turning next.tape.position
  | _, _ => []

/-- What the step at `d` reports, asides apart. -/
def notes (trace : Bool) (d : Dispatch H) : List Event :=
  d.executed trace ++ d.warned trace ++ d.turned trace

theorem stages_eq_match (trace : Bool) (d : Dispatch H) :
    d.stages trace = match d.step trace with
      | .next next => d :: next.stages trace
      | _ => [d] := by
  rw [stages]
  split <;> simp only [*]

theorem Moves.stages_eq {trace : Bool} {d next : Dispatch H} {e : Execution}
    (moved : d.Moves trace e next) : d.stages trace = d :: next.stages trace := by
  rw [stages_eq_match, moved.step_eq]

theorem Stops.stages_eq {trace : Bool} {d last : Dispatch H} {error : Option PassError}
    {es : List Execution} (stopped : d.Stops trace error es last) : d.stages trace = [d] := by
  rw [stages_eq_match, stopped.step_eq]
  cases error <;> rfl

theorem Moves.turned_eq {trace : Bool} {d next : Dispatch H} {e : Execution}
    (moved : d.Moves trace e next) : d.turned trace = e.turning next.tape.position := by
  simp only [turned, moved.executed.execution?_eq, moved.step_eq]

theorem Stops.turned_eq {trace : Bool} {d last : Dispatch H} {error : Option PassError}
    {es : List Execution} (stopped : d.Stops trace error es last) : d.turned trace = [] := by
  unfold turned
  rw [stopped.step_eq]
  cases error with
  | none | some =>
    split
    · rename_i onward
      cases onward
    · rfl

theorem isAside_executionEvent (trace : Bool) (position : Nat) (i : Instruction) :
    (executionEvent trace position i).isAside = false := by
  cases trace <;> rfl

theorem Executes.noted {trace : Bool} {d : Dispatch H} {e : Execution} (discreet : Host.Discreet H)
    (executed : d.Executes trace e) :
    Noted d.machine.log (d.perform trace e.instruction).2.machine.log
      (d.executed trace ++ d.warned trace) := by
  have reported := (Noted.refl d.machine.log).push
    (isAside_executionEvent trace d.tape.position e.instruction)
  have performed := Machine.noted_execute discreet
    (d.machine.report (executionEvent trace d.tape.position e.instruction)) e.instruction
  simp only [Dispatch.executed, warned, executed.execution?_eq, executed.position_eq,
    Option.toList_some, List.map_singleton, List.flatMap_singleton]
  exact reported.trans performed

theorem Moves.noted {trace : Bool} {d next : Dispatch H} {e : Execution} (discreet : Host.Discreet H)
    (moved : d.Moves trace e next) : Noted d.machine.log next.machine.log (d.notes trace) := by
  have performed := moved.executed.noted discreet
  have position := moved.executed.position_eq
  obtain ⟨_, _, within⟩ := moved.executed.consumed_bounds
  have onward := Tape.position_advance within
  rw [notes, moved.turned_eq]
  cases moved with
  | onward executed flow =>
    rw [Execution.turning, flow, List.append_nil]
    exact performed
  | @skip blockEnd offset executed flow found =>
    have bound := Stream.find?_bound found
    rw [List.length_drop] at bound
    have landed : ((d.tape.advance e.consumed).advance offset).position =
        (d.tape.advance e.consumed).position + offset := by
      apply Tape.position_advance
      rw [Tape.rest_advance, List.length_drop]
      omega
    simp only [Execution.turning, flow, position, ← onward, landed]
    exact performed.push rfl
  | replace executed flow =>
    simp only [Execution.turning, flow, position]
    exact performed.push rfl

theorem Stops.noted {trace : Bool} {d last : Dispatch H} {error : Option PassError}
    {es : List Execution} (discreet : Host.Discreet H) (stopped : d.Stops trace error es last) :
    Noted d.machine.log last.machine.log (d.notes trace) := by
  have nothing := stopped.execution?_eq
  rw [notes, stopped.turned_eq, List.append_nil]
  cases stopped with
  | ended | misaligned | undecodable =>
    simp only [executed, warned, nothing, List.map_nil, List.flatMap_nil, List.append_nil]
    exact .refl _
  | unterminated executed flow missing => exact executed.noted discreet

theorem Runs.noted {trace : Bool} {d last : Dispatch H} {es : List Execution}
    {error : Option PassError} (discreet : Host.Discreet H) (runs : Runs trace d es error last) :
    Noted d.machine.log last.machine.log ((d.stages trace).flatMap (notes trace)) := by
  induction runs with
  | stop stopped =>
    rw [stopped.stages_eq, List.flatMap_singleton]
    exact stopped.noted discreet
  | move moved _ ih =>
    rw [moved.stages_eq, List.flatMap_cons]
    exact (moved.noted discreet).trans ih

theorem eq_of_mem_executed {trace : Bool} {d : Dispatch H} {x : Event}
    (reported : x ∈ d.executed trace) : ∃ position i, x = executionEvent trace position i := by
  obtain ⟨e, _, rfl⟩ := List.mem_map.mp reported
  exact ⟨_, _, rfl⟩

theorem eq_of_mem_warned {trace : Bool} {d : Dispatch H} {x : Event} (reported : x ∈ d.warned trace) :
    ∃ register, x = .dividedByZero register := by
  obtain ⟨e, _, warns⟩ := List.mem_flatMap.mp reported
  unfold Machine.warnings at warns
  split at warns
  · split at warns
    · exact ⟨_, List.mem_singleton.mp warns⟩
    · cases warns
  · cases warns

theorem filter_executed_of_not {p : Event → Bool} (trace : Bool) (d : Dispatch H)
    (other : ∀ position i, p (executionEvent trace position i) = false) :
    (d.executed trace).filter p = [] := by
  refine List.filter_eq_nil_iff.mpr fun x reported => ?_
  obtain ⟨position, i, rfl⟩ := eq_of_mem_executed reported
  simp [other]

theorem filter_warned_of_not {p : Event → Bool} (trace : Bool) (d : Dispatch H)
    (other : ∀ register, p (.dividedByZero register) = false) : (d.warned trace).filter p = [] := by
  refine List.filter_eq_nil_iff.mpr fun x reported => ?_
  obtain ⟨register, rfl⟩ := eq_of_mem_warned reported
  simp [other]

theorem filter_notes {p : Event → Bool} (trace : Bool) (d : Dispatch H) :
    (d.notes trace).filter p =
      (d.executed trace).filter p ++ (d.warned trace).filter p ++ (d.turned trace).filter p := by
  rw [notes, List.filter_append, List.filter_append]

/-- What is reported of the way on is neither of the instruction nor of a division. -/
theorem filter_notes_named (trace : Bool) (d : Dispatch H) {message : String}
    (other : message ≠ "execute") :
    (d.notes trace).filter (Event.isNamed .debug message) =
      (d.turned trace).filter (Event.isNamed .debug message) := by
  have executed := d.filter_executed_of_not (p := Event.isNamed .debug message) trace
    (by cases trace <;> simp [executionEvent, Event.isNamed, Event.level, Event.message, other.symm])
  have warned := d.filter_warned_of_not (p := Event.isNamed .debug message) trace
    (by simp [Event.isNamed, Event.level])
  rw [filter_notes, executed, warned, List.nil_append, List.nil_append]

/-- An instruction that is cut short says by how much. -/
theorem Moves.removed {trace : Bool} {d next : Dispatch H} {e : Execution}
    (moved : d.Moves trace e next) :
    ((d.turned trace).filter (Event.isNamed .debug "search template rewritten")).map
        (·.fields.lookup "removed") = e.cut.map (fun n => some (toString n)) ∧
      next.tape.bytes.length + e.cut.sum = d.tape.bytes.length := by
  have change := moved.transition
  obtain ⟨line, _, inside⟩ := change.whole
  have shorter := Execution.length_rewrite line inside
  rw [← change.stream] at shorter
  rw [moved.turned_eq]
  cases flow : e.flow with
  | next | skipTo | replace =>
    simp only [Execution.turning, Execution.cut, flow]
    refine ⟨rfl, ?_⟩
    simpa [Execution.kept, flow] using shorter

theorem Runs.removed {trace : Bool} {d last : Dispatch H} {es : List Execution}
    {error : Option PassError} (runs : Runs trace d es error last) :
    ∃ cuts : List Nat,
      (((d.stages trace).flatMap (notes trace)).filter
        (Event.isNamed .debug "search template rewritten")).map (·.fields.lookup "removed") =
          cuts.map (fun n => some (toString n)) ∧
      last.tape.bytes.length + cuts.sum = d.tape.bytes.length := by
  induction runs with
  | stop stopped =>
    refine ⟨[], ?_, congrArg List.length stopped.stream⟩
    rw [stopped.stages_eq, List.flatMap_singleton, filter_notes_named _ _ (by decide), stopped.turned_eq]
    rfl
  | @move d e next es error last moved _ ih =>
    obtain ⟨cuts, reported, shorter⟩ := ih
    obtain ⟨here, cut⟩ := moved.removed
    refine ⟨e.cut ++ cuts, ?_, ?_⟩
    · rw [moved.stages_eq, List.flatMap_cons, List.filter_append, filter_notes_named _ _ (by decide),
        List.map_append, here, reported, List.map_append]
    · rw [List.sum_append]
      omega

end Dispatch

/-- Behind a gate a host reports no more than in front of it. -/
theorem Host.Discreet.gate {H : Type} [Host H] (discreet : Host.Discreet H) :
    Host.Discreet (Gate H) := by
  intro g request e reported
  by_cases live : g.live = true
  · simp only [Host.reports, live, if_true] at reported
    exact discreet g.host request e reported
  · simp [Host.reports, live] at reported

namespace Machine

variable {H : Type} [Host H]

end Machine

end LivePatch
