import LivePatch.Proofs.Dispatch.Counter
import LivePatch.Proofs.Dispatch.Parallel

namespace LivePatch

variable {H : Type} [Host H]

namespace Machine

/-- What a machine reports has no part in its runs. -/
theorem run_alike {m n : Machine H} (alike : m.Alike Eq n) (config : Config) (code : Bytes) :
    (m.run config code).outcome = (n.run config code).outcome ∧
      (m.run config code).code = (n.run config code).code ∧
      (m.run config code).machine.Alike Eq (n.run config code).machine := by
  have state : (m.gated config).state.beginPass = (n.gated config).state.beginPass :=
    congrArg State.beginPass alike.state
  have host : (m.gated config).host = (n.gated config).host :=
    congrArg (Gate.ofConfig config) alike.host
  obtain ⟨_, outcome, bytes, after⟩ :=
    pass_alike (Bisimulation.eq (Gate H)) state host config.trace config.trace code
  refine ⟨outcome, bytes, ?_, ?_⟩
  · simp only [run, alike.state]
    split
    · exact after.state
    · exact congrArg (State.restoring · n.state) after.state
  · simp only [run]
    split <;> exact congrArg Gate.host after.host

theorem executionCount_run {m : Machine H} {config : Config} {code : Bytes} {summary : Summary}
    (completed : (m.run config code).outcome = .ok summary) :
    summary.executionCount = m.state.count + 1 := by
  obtain ⟨es, error, last, runs⟩ := ((m.gated config).opening code).exists_runs config.trace
  obtain ⟨_, outcome, _⟩ := run_of_runs runs
  rw [outcome] at completed
  cases error with
  | some error => cases completed
  | none =>
    cases completed
    exact congrArg (· + 1) runs.count_eq

/-- Passes that complete, each over what the one before has left. -/
inductive Completes (config : Config) :
    Machine H → Bytes → List Summary → Machine H → Bytes → Prop
  | none {m code} : Completes config m code [] m code
  | pass {m code summary summaries last final} : (m.run config code).outcome = .ok summary →
      Completes config (m.run config code).machine (m.run config code).code summaries last final →
      Completes config m code (summary :: summaries) last final

theorem Completes.count_eq {config : Config} {m last : Machine H} {code final : Bytes}
    {summaries : List Summary} (completes : Completes config m code summaries last final) :
    last.state.count = m.state.count + UInt32.ofNat summaries.length := by
  induction completes with
  | none => simp
  | @pass m code summary summaries last final completed _ ih =>
    have counted := m.count_run config code
    rw [completed] at counted
    rw [ih, counted, List.length_cons, UInt32.ofNat_add, UInt32.add_assoc,
      UInt32.add_comm 1 (UInt32.ofNat summaries.length)]
    rfl

/-- Completed passes have consecutive counts. -/
theorem Completes.executionCount_eq {config : Config} {m last : Machine H} {code final : Bytes}
    {summaries : List Summary} (completes : Completes config m code summaries last final)
    {k : Nat} {summary : Summary} (there : summaries[k]? = some summary) :
    summary.executionCount = m.state.count + UInt32.ofNat (k + 1) := by
  induction completes generalizing k with
  | none => cases there
  | @pass m code first summaries last final completed _ ih =>
    cases k with
    | zero =>
      cases there
      exact executionCount_run completed
    | succ k =>
      have counted := m.count_run config code
      rw [completed] at counted
      rw [ih there, counted, UInt32.ofNat_add (k + 1) 1, UInt32.add_assoc,
        UInt32.add_comm 1 (UInt32.ofNat (k + 1))]
      rfl

/-- Several passes are completed passes, and then, if there are fewer than asked for, one that
fails. -/
theorem runPassesFrom_cases (config : Config) (before : Array Summary) (passes : Nat) (code : Bytes)
    (m : Machine H) :
    ∃ summaries last final, Completes config m code summaries last final ∧
      ((summaries.length = passes ∧
          runPassesFrom config before passes code m = ⟨.ok (before ++ summaries), final, last⟩) ∨
        (summaries.length < passes ∧ ∃ error, (last.run config final).outcome = .error error ∧
          runPassesFrom config before passes code m =
            ⟨.error error, (last.run config final).code, (last.run config final).machine⟩)) := by
  induction passes generalizing before code m with
  | zero => exact ⟨[], m, code, .none, .inl ⟨rfl, by simp [runPassesFrom]⟩⟩
  | succ passes ih =>
    simp only [runPassesFrom]
    cases outcome : (m.run config code).outcome with
    | error error =>
      exact ⟨[], m, code, .none, .inr ⟨Nat.succ_pos passes, error, outcome, rfl⟩⟩
    | ok summary =>
      obtain ⟨summaries, last, final, completes, ends⟩ :=
        ih (before.push summary) (m.run config code).code (m.run config code).machine
      refine ⟨summary :: summaries, last, final, .pass outcome completes, ?_⟩
      rcases ends with ⟨all, result⟩ | ⟨fewer, error, failed, result⟩
      · refine .inl ⟨congrArg (· + 1) all, result.trans ?_⟩
        simp
      · exact .inr ⟨Nat.succ_lt_succ fewer, error, failed, result⟩

theorem runPasses_cases (m : Machine H) (config : Config) (passes : Nat) (code : Bytes) :
    ∃ summaries last final, Completes config m code summaries last final ∧
      ((summaries.length = passes ∧
          m.runPasses config passes code = ⟨.ok summaries.toArray, final, last⟩) ∨
        (summaries.length < passes ∧ ∃ error, (last.run config final).outcome = .error error ∧
          m.runPasses config passes code =
            ⟨.error error, (last.run config final).code, (last.run config final).machine⟩)) := by
  simpa [runPasses] using runPassesFrom_cases config #[] passes code m

theorem Completes.runPassesFrom_eq {config : Config} {m last : Machine H} {code final : Bytes}
    {summaries : List Summary} (completes : Completes config m code summaries last final)
    (before : Array Summary) :
    runPassesFrom config before summaries.length code m = ⟨.ok (before ++ summaries), final, last⟩ := by
  induction completes generalizing before with
  | none => simp [runPassesFrom]
  | pass completed _ ih =>
    simp only [List.length_cons, runPassesFrom, completed]
    rw [ih]
    simp

theorem Completes.runPasses_eq {config : Config} {m last : Machine H} {code final : Bytes}
    {summaries : List Summary} (completes : Completes config m code summaries last final) :
    m.runPasses config summaries.length code = ⟨.ok summaries.toArray, final, last⟩ := by
  simpa [runPasses] using completes.runPassesFrom_eq #[]

/-- One pass more; there is none after an error. -/
def PassesResult.further (r : PassesResult H) (config : Config) : PassesResult H :=
  match r.outcome with
  | .error _ => r
  | .ok summaries =>
    let s := r.machine.run config r.code
    match s.outcome with
    | .error error => ⟨.error error, s.code, s.machine⟩
    | .ok summary => ⟨.ok (summaries.push summary), s.code, s.machine⟩

theorem runPassesFrom_succ (config : Config) (before : Array Summary) (passes : Nat) (code : Bytes)
    (m : Machine H) :
    runPassesFrom config before (passes + 1) code m =
      (runPassesFrom config before passes code m).further config := by
  induction passes generalizing before code m with
  | zero => rfl
  | succ passes ih =>
    rw [runPassesFrom]
    conv => rhs; rw [runPassesFrom]
    cases (m.run config code).outcome with
    | error error => rfl
    | ok summary => exact ih _ _ _

theorem runPasses_succ (m : Machine H) (config : Config) (passes : Nat) (code : Bytes) :
    m.runPasses config (passes + 1) code = (m.runPasses config passes code).further config :=
  runPassesFrom_succ config #[] passes code m

/-- What a machine reports has no part in its passes. -/
theorem runPassesFrom_alike {m n : Machine H} (alike : m.Alike Eq n) (config : Config)
    (before : Array Summary) (passes : Nat) (code : Bytes) :
    let r := runPassesFrom config before passes code m
    let s := runPassesFrom config before passes code n
    r.outcome = s.outcome ∧ r.code = s.code ∧ r.machine.Alike Eq s.machine := by
  induction passes generalizing m n before code with
  | zero => exact ⟨rfl, rfl, alike⟩
  | succ passes ih =>
    obtain ⟨outcome, bytes, after⟩ := run_alike alike config code
    simp only [runPassesFrom, outcome]
    cases (n.run config code).outcome with
    | error error => exact ⟨rfl, bytes, after⟩
    | ok summary =>
      rw [bytes]
      exact ih after _ _

/-- The outcomes of the passes that are made, in order; the first that fails is the last. -/
def outcomes (config : Config) :
    (passes : Nat) → (code : Bytes) → (m : Machine H) → List (Except PassError Summary)
  | 0, _, _ => []
  | n + 1, code, m =>
    let r := m.run config code
    match r.outcome with
    | .error error => [.error error]
    | .ok summary => .ok summary :: outcomes config n r.code r.machine

theorem Completes.outcomes_eq {config : Config} {m last : Machine H} {code final : Bytes}
    {summaries : List Summary} (completes : Completes config m code summaries last final)
    (further : Nat) :
    outcomes config (summaries.length + further) code m =
      summaries.map .ok ++ outcomes config further final last := by
  induction completes with
  | none => simp
  | pass completed _ ih =>
    rw [List.length_cons, Nat.add_right_comm]
    simp only [outcomes, completed]
    rw [ih, List.map_cons, List.cons_append]

theorem outcomes_of_failed {m : Machine H} {config : Config} {code : Bytes} {error : PassError}
    (failed : (m.run config code).outcome = .error error) {passes : Nat} (some_left : 0 < passes) :
    outcomes config passes code m = [.error error] := by
  obtain ⟨fewer, rfl⟩ := Nat.exists_eq_add_of_le' some_left
  simp only [outcomes, failed]

/-- Passes that are all completed: one account each, and consecutive counts. -/
theorem runPasses_of_ok {m : Machine H} {config : Config} {passes : Nat} {code : Bytes}
    {summaries : Array Summary} (completed : (m.runPasses config passes code).outcome = .ok summaries) :
    outcomes config passes code m = summaries.toList.map .ok ∧ summaries.size = passes ∧
      (m.runPasses config passes code).machine.state.count = m.state.count + UInt32.ofNat passes ∧
      ∀ k summary, summaries[k]? = some summary →
        summary.executionCount = m.state.count + UInt32.ofNat (k + 1) := by
  obtain ⟨found, last, final, completes, ends⟩ := m.runPasses_cases config passes code
  rcases ends with ⟨all, result⟩ | ⟨_, error, _, result⟩
  · rw [result] at completed ⊢
    cases completed
    subst all
    refine ⟨?_, rfl, completes.count_eq, ?_⟩
    · simpa [outcomes] using completes.outcomes_eq 0
    · intro k summary there
      rw [List.getElem?_toArray] at there
      exact completes.executionCount_eq there
  · rw [result] at completed
    cases completed

/-- Passes over a stream that every pass completes and leaves as it is. -/
theorem runPasses_steady {config : Config} {code : Bytes} {account : UInt32 → Summary}
    (steady : ∀ m : Machine H,
      (m.run config code).outcome = .ok (account m.state.count) ∧ (m.run config code).code = code)
    (m : Machine H) (passes : Nat) :
    let r := m.runPasses config passes code
    r.outcome = .ok
        ((List.range passes).map fun k => account (m.state.count + UInt32.ofNat k)).toArray ∧
      r.code = code ∧ r.machine.state.count = m.state.count + UInt32.ofNat passes ∧
      (m.runPasses config (passes + 1) code).machine = (r.machine.run config code).machine := by
  intro r
  have completed : r.outcome = .ok
      ((List.range passes).map fun k => account (m.state.count + UInt32.ofNat k)).toArray ∧
        r.code = code := by
    induction passes with
    | zero => exact ⟨rfl, rfl⟩
    | succ passes ih =>
      obtain ⟨outcome, bytes⟩ := ih
      obtain ⟨_, _, counted, _⟩ := runPasses_of_ok outcome
      obtain ⟨next, same⟩ := steady (m.runPasses config passes code).machine
      simp only [r, runPasses_succ, PassesResult.further, outcome, bytes, next]
      refine ⟨?_, same⟩
      rw [counted, List.range_succ, List.map_append, List.map_singleton, List.push_toArray]
  obtain ⟨outcome, bytes⟩ := completed
  obtain ⟨_, _, counted, _⟩ := runPasses_of_ok outcome
  refine ⟨outcome, bytes, counted, ?_⟩
  have next := (steady r.machine).1
  rw [runPasses_succ]
  change (r.further config).machine = _
  simp only [PassesResult.further, outcome, bytes, next]

/-- Passes of which one fails: it comes after completed ones, and nothing comes after it. -/
theorem runPasses_of_error {m : Machine H} {config : Config} {passes : Nat} {code : Bytes}
    {error : PassError} (failed : (m.runPasses config passes code).outcome = .error error) :
    ∃ summaries : List Summary,
      let before := m.runPasses config summaries.length code
      let failing := before.machine.run config before.code
      outcomes config passes code m = summaries.map .ok ++ [.error error] ∧
        summaries.length < passes ∧ before.outcome = .ok summaries.toArray ∧
        failing.outcome = .error error ∧
        (m.runPasses config passes code).code = failing.code ∧
        (m.runPasses config passes code).machine = failing.machine ∧
        failing.machine.state.count = m.state.count + UInt32.ofNat summaries.length := by
  obtain ⟨found, last, final, completes, ends⟩ := m.runPasses_cases config passes code
  rcases ends with ⟨_, result⟩ | ⟨fewer, other, stopped, result⟩
  · rw [result] at failed
    cases failed
  · rw [result] at failed ⊢
    cases failed
    have counted := last.count_run config final
    rw [stopped, completes.count_eq] at counted
    refine ⟨found, ?_⟩
    rw [completes.runPasses_eq]
    refine ⟨?_, fewer, rfl, stopped, rfl, rfl, counted⟩
    have made := completes.outcomes_eq (passes - found.length)
    rwa [Nat.add_sub_cancel' (Nat.le_of_lt fewer),
      outcomes_of_failed stopped (Nat.sub_pos_of_lt fewer)] at made

end Machine

/-- A call on a machine, with a stream and settings of its own. -/
inductive Call where
  | pass (config : Config) (code : Bytes)
  | passes (config : Config) (count : Nat) (code : Bytes)

namespace Machine

def afterCall (m : Machine H) : Call → Machine H
  | .pass config code => (m.run config code).machine
  | .passes config count code => (m.runPasses config count code).machine

/-- The outcomes of the passes that a call makes. -/
def callOutcomes (m : Machine H) : Call → List (Except PassError Summary)
  | .pass config code => [(m.run config code).outcome]
  | .passes config count code => outcomes config count code m

/-- The machine after a sequence of calls. -/
def afterCalls (m : Machine H) (calls : List Call) : Machine H :=
  calls.foldl afterCall m

/-- The outcomes of all passes that a sequence of calls makes. -/
def callsOutcomes (m : Machine H) : List Call → List (Except PassError Summary)
  | [] => []
  | call :: calls => m.callOutcomes call ++ (m.afterCall call).callsOutcomes calls

theorem countP_isOk_map (summaries : List Summary) :
    (summaries.map (Except.ok (ε := PassError))).countP (·.isOk) = summaries.length := by
  rw [List.countP_map]
  exact congrFun List.countP_true summaries

theorem count_afterCall (m : Machine H) (call : Call) :
    (m.afterCall call).state.count =
      m.state.count + UInt32.ofNat ((m.callOutcomes call).countP (·.isOk)) := by
  cases call with
  | pass config code =>
    have counted := m.count_run config code
    simp only [afterCall, callOutcomes]
    rw [counted]
    cases (m.run config code).outcome with
    | ok summary => rfl
    | error error => exact (UInt32.add_zero _).symm
  | passes config count code =>
    simp only [afterCall, callOutcomes]
    cases outcome : (m.runPasses config count code).outcome with
    | ok summaries =>
      obtain ⟨made, size, counted, _⟩ := runPasses_of_ok outcome
      rw [made, countP_isOk_map, counted, Array.length_toList, size]
    | error error =>
      obtain ⟨summaries, made, _, _, _, _, last, counted⟩ := runPasses_of_error outcome
      rw [made, List.countP_append, countP_isOk_map, last, counted]
      rfl

/-- The counter counts the completed passes, whatever calls make them. -/
theorem count_afterCalls (m : Machine H) (calls : List Call) :
    (m.afterCalls calls).state.count =
      m.state.count + UInt32.ofNat ((m.callsOutcomes calls).countP (·.isOk)) := by
  induction calls generalizing m with
  | nil => exact (UInt32.add_zero _).symm
  | cons call calls ih =>
    have later := ih (m.afterCall call)
    have first := m.count_afterCall call
    rw [callsOutcomes, List.countP_append, UInt32.ofNat_add, ← UInt32.add_assoc, ← first]
    exact later

end Machine

end LivePatch
