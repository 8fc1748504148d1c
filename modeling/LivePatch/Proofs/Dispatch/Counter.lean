import LivePatch.Proofs.Dispatch.Reach

namespace LivePatch

variable {H : Type}

namespace Machine

theorem count_onTarget {m : Machine H} {t : Target}
    {act : Machine H → UInt32 → Flow × Machine H}
    (keeps : ∀ address, (act m address).2.state.count = m.state.count) :
    (m.onTarget t act).2.state.count = m.state.count := by
  unfold onTarget
  split
  · exact keeps _
  · rfl

theorem count_integerArithmetic (m : Machine H) (arithmetic : Arithmetic) (destination : Register)
    (source : Source) :
    (m.integerArithmetic arithmetic destination source).2.state.count = m.state.count := by
  simp only [integerArithmetic]
  split <;> rfl

theorem count_setTimer (m : Machine H) (delay : UInt32) :
    (m.setTimer delay).2.state.count = m.state.count := by
  simp only [setTimer]
  split <;> rfl

variable [Host H]

theorem count_search (m : Machine H) (template : Bytes) (index : UInt16) (start stop : UInt32) :
    (m.search template index start stop).2.state.count = m.state.count := rfl

/-- Instructions leave the number of completed passes alone. -/
theorem count_execute (m : Machine H) (i : Instruction) :
    (m.execute i).2.state.count = m.state.count := by
  cases i with
  | integerArithmetic arithmetic destination source =>
    exact m.count_integerArithmetic arithmetic destination source
  | timer delay => exact m.count_setTimer delay
  -- By its own lemma: taken apart together with `execute`, a search is slow to check.
  | search template index => exact m.count_search template index _ _
  | write | writeString | writeSeries | fill | test | loadInteger | storeInteger | loadFloat
  | storeFloat | loadPointer => exact count_onTarget fun _ => rfl
  | _ => rfl

end Machine

variable [Host H]

namespace Dispatch

theorem count_perform (trace : Bool) (d : Dispatch H) (i : Instruction) :
    (d.perform trace i).2.machine.state.count = d.machine.state.count :=
  Machine.count_execute _ i

theorem Moves.count_eq {trace : Bool} {d next : Dispatch H} {e : Execution}
    (moved : d.Moves trace e next) : next.machine.state.count = d.machine.state.count := by
  cases moved with
  | onward | skip | replace => exact d.count_perform trace e.instruction

theorem Stops.count_eq {trace : Bool} {d last : Dispatch H} {error : Option PassError}
    {es : List Execution} (stopped : d.Stops trace error es last) :
    last.machine.state.count = d.machine.state.count := by
  cases stopped with
  | @unterminated e => exact d.count_perform trace e.instruction
  | ended | misaligned | undecodable => rfl

theorem Runs.count_eq {trace : Bool} {d last : Dispatch H} {es : List Execution}
    {error : Option PassError} (runs : Runs trace d es error last) :
    last.machine.state.count = d.machine.state.count := by
  induction runs with
  | stop stopped => exact stopped.count_eq
  | move moved _ ih => exact ih.trans moved.count_eq

end Dispatch

/-- What a run leaves of the counter, live or dry. -/
theorem Machine.count_run (m : Machine H) (config : Config) (code : Bytes) :
    (m.run config code).machine.state.count =
      match (m.run config code).outcome with
      | .ok _ => m.state.count + 1
      | .error _ => m.state.count := by
  obtain ⟨es, error, last, runs⟩ := ((m.gated config).opening code).exists_runs config.trace
  obtain ⟨_, outcome, _, state, _⟩ := run_of_runs runs
  have counted : last.machine.state.count = m.state.count := runs.count_eq
  have settles (s : State) : (m.settled config s).count = s.count := by
    unfold settled
    split <;> rfl
  rw [outcome, state, settles]
  cases error with
  | none => exact congrArg (· + 1) counted
  | some error => exact counted

end LivePatch
