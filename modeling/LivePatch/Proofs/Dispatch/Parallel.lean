import LivePatch.Proofs.Dispatch.Reach

namespace LivePatch

variable {H K : Type} {R : H → K → Prop}

/-- Two passes at the same point, on related hosts. -/
structure Dispatch.Paired (R : H → K → Prop) (d : Dispatch H) (twin : Dispatch K) : Prop where
  tape : d.tape = twin.tape
  machine : d.machine.Alike R twin.machine
  instructions : d.instructions = twin.instructions
  skipped : d.skipped = twin.skipped

namespace Dispatch

theorem Paired.outcome_eq {d : Dispatch H} {twin : Dispatch K} (paired : d.Paired R twin)
    (error : Option PassError) : d.outcome error = twin.outcome error := by
  cases error with
  | some error => rfl
  | none =>
    simp only [outcome, paired.tape, paired.machine.state, paired.instructions, paired.skipped]

variable [Host H] [Host K]

theorem Paired.perform {d : Dispatch H} {twin : Dispatch K} (paired : d.Paired R twin)
    (bisim : Bisimulation R) (trace traceTwin : Bool) (i : Instruction) :
    (d.perform trace i).1 = (twin.perform traceTwin i).1 ∧
      (d.perform trace i).2.Paired R (twin.perform traceTwin i).2 := by
  obtain ⟨flow, machine⟩ := perform_twin paired.machine bisim trace traceTwin i
  exact ⟨flow, paired.tape, machine, congrArg (· + 1) paired.instructions, paired.skipped⟩

theorem Paired.executes {d : Dispatch H} {twin : Dispatch K} {trace : Bool} {e : Execution}
    (paired : d.Paired R twin) (bisim : Bisimulation R) (traceTwin : Bool)
    (executed : d.Executes trace e) : twin.Executes traceTwin e := by
  have performed := paired.perform bisim trace traceTwin e.instruction
  obtain ⟨aligned, decoded, position, flow⟩ := executed
  rw [paired.tape] at aligned decoded position
  exact ⟨aligned, decoded, position, performed.1.symm.trans flow⟩

/-- The twin makes every move that the pass makes. -/
theorem Paired.move {d next : Dispatch H} {twin : Dispatch K} {trace : Bool} {e : Execution}
    (paired : d.Paired R twin) (bisim : Bisimulation R) (traceTwin : Bool)
    (moved : d.Moves trace e next) :
    ∃ nextTwin, twin.Moves traceTwin e nextTwin ∧ next.Paired R nextTwin := by
  have executes := paired.executes bisim traceTwin moved.executed
  have performed := (paired.perform bisim trace traceTwin e.instruction).2
  cases moved with
  | onward executed flow =>
    refine ⟨_, .onward executes flow, ?_, performed.machine, performed.instructions, performed.skipped⟩
    rw [paired.tape]
  | @skip blockEnd offset executed flow found =>
    rw [paired.tape] at found
    refine ⟨_, .skip executes flow found, ?_, performed.machine.report _ _, performed.instructions, ?_⟩
    · rw [paired.tape]
    · exact congrArg (· + 1) paired.skipped
  | @replace address executed flow =>
    refine ⟨_, .replace executes flow, ?_, performed.machine.report _ _, performed.instructions,
      performed.skipped⟩
    exact congrArg (Tape.replace · e.consumed address) paired.tape

theorem Paired.stop {d last : Dispatch H} {twin : Dispatch K} {trace : Bool}
    {error : Option PassError} {es : List Execution} (paired : d.Paired R twin)
    (bisim : Bisimulation R) (traceTwin : Bool) (stopped : d.Stops trace error es last) :
    ∃ lastTwin, twin.Stops traceTwin error es lastTwin ∧ last.Paired R lastTwin := by
  have tape := paired.tape
  cases stopped with
  | ended empty => exact ⟨twin, .ended (by rwa [← tape]), paired⟩
  | misaligned broken =>
    rw [tape] at broken ⊢
    exact ⟨twin, .misaligned broken, paired⟩
  | undecodable aligned nonempty decoded =>
    rw [tape] at aligned nonempty decoded ⊢
    exact ⟨twin, .undecodable aligned nonempty decoded, paired⟩
  | @unterminated e blockEnd executed flow missing =>
    have executes := paired.executes bisim traceTwin executed
    have performed := (paired.perform bisim trace traceTwin e.instruction).2
    rw [tape] at missing ⊢
    exact ⟨_, .unterminated executes flow missing, rfl, performed.machine, performed.instructions,
      performed.skipped⟩

theorem Runs.paired {d last : Dispatch H} {trace : Bool} {error : Option PassError}
    {es : List Execution} (runs : Runs trace d es error last) (bisim : Bisimulation R)
    (traceTwin : Bool) : ∀ twin, d.Paired R twin →
      ∃ lastTwin, Runs traceTwin twin es error lastTwin ∧ last.Paired R lastTwin := by
  induction runs with
  | stop stopped =>
    intro twin paired
    obtain ⟨lastTwin, stops, ended⟩ := paired.stop bisim traceTwin stopped
    exact ⟨lastTwin, .stop stops, ended⟩
  | move moved _ ih =>
    intro twin paired
    obtain ⟨nextTwin, moves, further⟩ := paired.move bisim traceTwin moved
    obtain ⟨lastTwin, runs, ended⟩ := ih nextTwin further
    exact ⟨lastTwin, .move moves runs, ended⟩

end Dispatch

/-- Passes that start alike on related hosts. What the state holds of the pass before is dropped
first, so that it may differ. -/
theorem Machine.pass_alike [Host H] [Host K] {m : Machine H} {n : Machine K}
    (bisim : Bisimulation R) (state : m.state.beginPass = n.state.beginPass)
    (host : R m.host n.host) (trace traceTwin : Bool) (code : Bytes) :
    (m.opening code).executions trace = (n.opening code).executions traceTwin ∧
      (m.pass trace code).outcome = (n.pass traceTwin code).outcome ∧
      (m.pass trace code).code = (n.pass traceTwin code).code ∧
      (m.pass trace code).machine.Alike R (n.pass traceTwin code).machine := by
  obtain ⟨es, error, last, runs⟩ := (m.opening code).exists_runs trace
  have start : (m.opening code).Paired R (n.opening code) := ⟨rfl, ⟨state, host⟩, rfl, rfl⟩
  obtain ⟨lastTwin, runsTwin, paired⟩ := runs.paired bisim traceTwin _ start
  obtain ⟨outcome, bytes, final, reached⟩ := pass_of_run runs.run_eq
  obtain ⟨outcomeTwin, bytesTwin, finalTwin, reachedTwin⟩ := pass_of_run runsTwin.run_eq
  refine ⟨?_, ?_, ?_, ?_, ?_⟩
  · rw [runs.executions_eq, runsTwin.executions_eq]
  · rw [outcome, outcomeTwin, paired.outcome_eq]
  · rw [bytes, bytesTwin, paired.tape]
  · rw [final, finalTwin, Dispatch.closingState_congr paired.machine.state]
  · rw [reached, reachedTwin]
    exact paired.machine.host

end LivePatch
