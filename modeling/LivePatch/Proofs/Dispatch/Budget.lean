import LivePatch.Proofs.Dispatch.Counter
import LivePatch.Proofs.Dispatch.Transition

namespace LivePatch

namespace Tape

/-- Number of instructions that can still be executed. A line is executed twice only if it holds a
search at first, so any other instruction has used up one turn of its line. -/
def budget (t : Tape) : Nat :=
  2 * (t.rest.length / 8) -
    match decode t.rest with
    | .ok (i, _) => if i.isSearch then 0 else 1
    | .error _ => 0

theorem budget_le (t : Tape) : t.budget ≤ 2 * (t.rest.length / 8) :=
  Nat.sub_le _ _

theorem budget_of_search {t : Tape} {i : Instruction} {n : Nat}
    (decoded : decode t.rest = .ok (i, n)) (search : i.isSearch = true) :
    t.budget = 2 * (t.rest.length / 8) := by
  simp only [budget, decoded, search, if_true, Nat.sub_zero]

theorem budget_of_other {t : Tape} {i : Instruction} {n : Nat}
    (decoded : decode t.rest = .ok (i, n)) (other : i.isSearch = false) :
    t.budget + 1 = 2 * (t.rest.length / 8) := by
  obtain ⟨line, _, within⟩ := Instruction.consumed_of_decode decoded
  have used : t.budget = 2 * (t.rest.length / 8) - 1 := by
    simp only [budget, decoded, other, Bool.false_eq_true, if_false]
  omega

theorem budget_lt_of_shorter {t u : Tape} {i : Instruction} {n : Nat}
    (decoded : decode t.rest = .ok (i, n)) (other : i.isSearch = false)
    (shorter : u.rest.length + 8 ≤ t.rest.length) : u.budget < t.budget := by
  have now := budget_of_other decoded other
  have later := u.budget_le
  omega

theorem budget_replace_lt {t : Tape} {i : Instruction} {n : Nat} (address : UInt32)
    (decoded : decode t.rest = .ok (i, n)) (search : i.isSearch = true) :
    (t.replace n address).budget < t.budget := by
  obtain ⟨line, _, within⟩ := Instruction.consumed_of_decode decoded
  have replaced := rest_replace address line within
  have loads := Stream.decode_pointerLine address (t.rest.drop n)
  rw [← replaced] at loads
  have now := budget_of_search decoded search
  have later := budget_of_other loads rfl
  rw [replaced, List.length_append, Vector.length_toList, List.length_drop] at later
  omega

end Tape

/-- Number of blocks that are skipped on the way. -/
def Flow.skips : Flow → Nat
  | .skipTo _ => 1
  | .next | .replace _ => 0

namespace Dispatch

variable {H : Type} [Host H]

/-- Every executed instruction takes from the budget. -/
theorem Moves.budget_lt {trace : Bool} {d next : Dispatch H} {e : Execution}
    (moved : d.Moves trace e next) : next.tape.budget < d.tape.budget := by
  have decoded := moved.executed.decoded
  obtain ⟨line, _, within⟩ := moved.executed.consumed_bounds
  cases moved with
  | onward executed flow =>
    have other := executed.isSearch_eq_false (by simp [flow])
    refine Tape.budget_lt_of_shorter decoded other ?_
    rw [Tape.rest_advance, List.length_drop]
    omega
  | skip executed flow found =>
    have other := executed.isSearch_eq_false (by simp [flow])
    refine Tape.budget_lt_of_shorter decoded other ?_
    rw [Tape.rest_advance, Tape.rest_advance, List.length_drop, List.length_drop]
    omega
  | @replace address executed flow =>
    exact Tape.budget_replace_lt address decoded (executed.isSearch_iff.mpr ⟨address, flow⟩)

theorem Stops.length_le_budget {trace : Bool} {d last : Dispatch H} {error : Option PassError}
    {es : List Execution} (stopped : d.Stops trace error es last) : es.length ≤ d.tape.budget := by
  cases stopped with
  | @unterminated e blockEnd executed flow missing =>
    have other := executed.isSearch_eq_false (by simp [flow])
    have now := Tape.budget_of_other executed.decoded other
    obtain ⟨line, _, within⟩ := executed.consumed_bounds
    rw [List.length_singleton]
    omega
  | ended | misaligned | undecodable => exact Nat.zero_le _

theorem Runs.length_le_budget {trace : Bool} {d last : Dispatch H} {es : List Execution}
    {error : Option PassError} (runs : Runs trace d es error last) : es.length ≤ d.tape.budget := by
  induction runs with
  | stop stopped => exact stopped.length_le_budget
  | move moved _ ih =>
    have taken := moved.budget_lt
    rw [List.length_cons]
    omega

theorem Reaches.length_add_budget_le {trace : Bool} {start d : Dispatch H} {es : List Execution}
    (reach : Reaches trace start es d) : es.length + d.tape.budget ≤ start.tape.budget := by
  induction reach with
  | start => exact Nat.le_of_eq (Nat.zero_add _)
  | move _ executed step ih =>
    have taken := (moves_iff.mpr ⟨executed, step⟩).budget_lt
    rw [List.length_append, List.length_singleton]
    omega

/-- The loop, broken off after so many turns. -/
def runWithin (trace : Bool) : (turns : Nat) → Dispatch H → Option (Option PassError × Dispatch H)
  | 0, _ => none
  | turns + 1, d =>
    match d.step trace with
    | .done last => some (none, last)
    | .failed error last => some (some error, last)
    | .next next => next.runWithin trace turns

/-- A loop that has one turn more than its budget is not broken off. -/
theorem Runs.runWithin_eq {trace : Bool} {d last : Dispatch H} {es : List Execution}
    {error : Option PassError} (runs : Runs trace d es error last) :
    ∀ turns, d.tape.budget < turns → d.runWithin trace turns = some (error, last) := by
  induction runs with
  | @stop d error es last stopped =>
    intro turns enough
    cases turns with
    | zero => omega
    | succ turns =>
      rw [runWithin, stopped.step_eq]
      cases error <;> rfl
  | @move d e next es error last moved _ ih =>
    intro turns enough
    have taken := moved.budget_lt
    cases turns with
    | zero => omega
    | succ turns =>
      rw [runWithin, moved.step_eq]
      exact ih turns (by omega)

/-- Two instructions have been executed for every skip, or the second of them comes next. -/
def Balanced (d : Dispatch H) : Prop :=
  2 * d.skipped ≤ d.instructions ∨
    ∃ blockEnd : BlockEnd, blockEnd.line.toList <+: d.tape.rest ∧ 2 * d.skipped ≤ d.instructions + 1

theorem Moves.skipped_eq {trace : Bool} {d next : Dispatch H} {e : Execution}
    (moved : d.Moves trace e next) : next.skipped = d.skipped + e.flow.skips := by
  cases moved with
  | onward executed flow | skip executed flow found | replace executed flow =>
    rw [flow]
    rfl

theorem Balanced.move {trace : Bool} {d next : Dispatch H} {e : Execution} (balanced : d.Balanced)
    (moved : d.Moves trace e next) : next.Balanced := by
  have executed := moved.instructions_eq
  have skipped := moved.skipped_eq
  rcases balanced with even | ⟨blockEnd, stands, short⟩
  · cases flow : e.flow with
    | next | replace address =>
      simp only [flow, Flow.skips] at skipped
      exact .inl (by omega)
    | skipTo blockEnd =>
      simp only [flow, Flow.skips] at skipped
      have lands := moved.lands
      simp only [Lands, flow] at lands
      exact .inr ⟨blockEnd, lands.2.2, by omega⟩
  · -- The closing line is executed now, and it skips nothing.
    simp only [moved.eq_closing stands, Flow.skips] at skipped
    exact .inl (by omega)

theorem Runs.two_mul_skipped_le {trace : Bool} {d last : Dispatch H} {es : List Execution}
    {error : Option PassError} (runs : Runs trace d es error last) :
    d.Balanced → error = none → 2 * last.skipped ≤ last.instructions := by
  induction runs with
  | stop stopped =>
    intro balanced completed
    cases stopped with
    | ended empty =>
      rcases balanced with even | ⟨blockEnd, stands, _⟩
      · exact even
      · rw [empty] at stands
        have size := stands.length_le
        simp at size
    | misaligned | undecodable | unterminated => cases completed
  | move moved _ ih =>
    intro balanced completed
    exact ih (balanced.move moved) completed

/-- A stream in which every line is a search of no bytes in no memory. -/
def idle (lines : Nat) : Bytes :=
  (List.replicate lines (Instruction.search [] 0 0 0)).flatMap Instruction.encode

theorem idle_succ (lines : Nat) :
    idle (lines + 1) = (Instruction.search [] 0 0 0).encode ++ idle lines := rfl

theorem length_idle (lines : Nat) : (idle lines).length = 8 * lines := by
  induction lines with
  | zero => rfl
  | succ lines ih =>
    have line : (Instruction.search [] 0 0 0).encode.length = 8 := rfl
    rw [idle_succ, List.length_append, line, ih]
    omega

/-- A search for nothing and the pointer load that it turns into are both executed. -/
theorem moves_idle (trace : Bool) {d : Dispatch H} {tail : Bytes}
    (rest : d.tape.rest = (Instruction.search [] 0 0 0).encode ++ tail) (lines : tail.length % 8 = 0) :
    ∃ e between f next, d.Moves trace e between ∧ between.Moves trace f next ∧
      next.tape.rest = tail ∧ next.tape.bytes.length = d.tape.bytes.length ∧
        next.skipped = d.skipped := by
  have decoded : decode d.tape.rest = .ok (.search [] 0 0 0, 8) := by
    rw [rest]
    exact Instruction.decode_encode_append rfl tail
  have size : d.tape.rest.length = 8 + tail.length := by
    rw [rest, List.length_append]
    rfl
  have after : d.tape.rest.drop 8 = tail := by
    rw [rest]
    rfl
  have replaced := Tape.rest_replace (t := d.tape) 0 (Nat.le_refl 8) (by omega)
  rw [after] at replaced
  have loads := Stream.decode_pointerLine 0 tail
  rw [← replaced] at loads
  have searches : d.Executes trace ⟨d.tape.position, .search [] 0 0 0, 8, .replace 0⟩ :=
    ⟨by omega, decoded, rfl, rfl⟩
  have loading : ((d.perform trace (.search [] 0 0 0)).2.replace 8 0).Executes trace
      ⟨d.tape.position, .setPointer 0, 8, .next⟩ := by
    refine ⟨?_, loads, rfl, rfl⟩
    show (d.tape.replace 8 0).rest.length % 8 = 0
    rw [replaced, List.length_append, Vector.length_toList]
    omega
  refine ⟨_, _, _, _, .replace searches rfl, .onward loading rfl, ?_, ?_, rfl⟩
  · show (d.tape.replace 8 0).rest.drop 8 = tail
    rw [replaced]
    rfl
  · show ((d.tape.replace 8 0).advance 8).bytes.length = d.tape.bytes.length
    have total := d.tape.length_bytes
    rw [Tape.bytes_advance, Tape.length_bytes, replaced, List.length_append, Vector.length_toList,
      total, size]
    rfl

theorem exists_runs_idle (trace : Bool) {d : Dispatch H} {lines : Nat}
    (rest : d.tape.rest = idle lines) :
    ∃ es last, Runs trace d es none last ∧ es.length = 2 * lines ∧ last.skipped = d.skipped ∧
      last.tape.bytes.length = d.tape.bytes.length := by
  induction lines generalizing d with
  | zero => exact ⟨[], d, .stop (.ended rest), rfl, rfl, rfl⟩
  | succ lines ih =>
    have whole : (idle lines).length % 8 = 0 := by
      rw [length_idle]
      omega
    obtain ⟨e, between, f, next, first, second, after, length, skipped⟩ :=
      moves_idle trace rest whole
    obtain ⟨es, last, runs, executed, skips, final⟩ := ih after
    refine ⟨e :: f :: es, last, .move first (.move second runs), ?_, skips.trans skipped,
      final.trans length⟩
    rw [List.length_cons, List.length_cons, executed]
    omega

end Dispatch

namespace Machine

variable {H : Type} [Host H]

/-- A search for nothing on every line: two instructions a line, and not a byte less afterwards. -/
theorem run_idle (m : Machine H) (config : Config) (lines : Nat) :
    (m.executions config (Dispatch.idle lines)).length = 2 * lines ∧
      (m.run config (Dispatch.idle lines)).outcome =
        .ok ⟨2 * lines, 0, 8 * lines, m.state.count + 1⟩ := by
  have whole : ((m.gated config).opening (Dispatch.idle lines)).tape.rest = Dispatch.idle lines := rfl
  obtain ⟨es, last, runs, executed, skips, length⟩ :=
    Dispatch.exists_runs_idle config.trace whole
  obtain ⟨all, outcome, _⟩ := run_of_runs runs
  have instructions : last.instructions = 2 * lines := by
    rw [runs.instructions_eq, executed]
    exact Nat.zero_add _
  have skipped : last.skipped = 0 := skips
  have final : last.tape.bytes.length = 8 * lines := length.trans (Dispatch.length_idle lines)
  have counted : last.machine.state.count = m.state.count := runs.count_eq
  refine ⟨all ▸ executed, ?_⟩
  rw [outcome]
  simp only [Dispatch.outcome, instructions, skipped, final, State.finishPass, counted]

/-- The loop of a run ends before it has executed more than two instructions for each line, which is
as many as a stream of that length can make it execute; a run that completes has executed two for each
block that it skipped. -/
theorem run_within_two_per_line (m : Machine H) (config : Config) (code : Bytes) :
    let opening := (m.gated config).opening code
    (∀ es d, Dispatch.Reaches config.trace opening es d → es.length ≤ 2 * (code.length / 8)) ∧
      opening.runWithin config.trace (2 * (code.length / 8) + 1) = some (opening.run config.trace) ∧
      (opening.run config.trace).2.instructions = (m.executions config code).length ∧
      (m.executions config code).length ≤ 2 * (code.length / 8) ∧
      (∀ summary, (m.run config code).outcome = .ok summary →
        summary.instructions = (m.executions config code).length ∧
          2 * summary.skippedBlocks ≤ summary.instructions) ∧
      ∀ lines, (Dispatch.idle lines).length = 8 * lines ∧
        (m.executions config (Dispatch.idle lines)).length = 2 * lines ∧
        (m.run config (Dispatch.idle lines)).outcome =
          .ok ⟨2 * lines, 0, 8 * lines, m.state.count + 1⟩ := by
  intro opening
  have bound : opening.tape.budget ≤ 2 * (code.length / 8) := opening.tape.budget_le
  obtain ⟨es, error, last, runs⟩ := opening.exists_runs config.trace
  obtain ⟨executed, outcome, _⟩ := run_of_runs runs
  have counted : last.instructions = es.length := runs.instructions_eq.trans (Nat.zero_add _)
  have within := runs.length_le_budget
  refine ⟨?_, ?_, ?_, ?_, ?_, ?_⟩
  · intro es d reach
    have spent := reach.length_add_budget_le
    omega
  · rw [runs.run_eq]
    exact runs.runWithin_eq _ (by omega)
  · rw [runs.run_eq, executed]
    exact counted
  · rw [executed]
    omega
  · intro summary completed
    rw [outcome] at completed
    cases error with
    | some error => cases completed
    | none =>
      cases completed
      have started : opening.Balanced := .inl (Nat.zero_le _)
      exact ⟨counted.trans (congrArg _ executed.symm), runs.two_mul_skipped_le started rfl⟩
  · intro lines
    exact ⟨Dispatch.length_idle lines, m.run_idle config lines⟩

/-- A block that is skipped: the test and the terminator are executed, of six that might be. -/
theorem run_within_two_per_line_skip :
    let m : Machine Memory := { host := {} }
    let code := (Instruction.test .equal ⟨.absolute, 16⟩ .word 1 0).encode ++ terminatorLine.toList
    (m.run {} code).outcome = .ok ⟨2, 1, 24, 1⟩ ∧ 2 * 1 ≤ 2 ∧ 2 ≤ 2 * (code.length / 8) := by
  intro m code
  have completed : (m.run {} code).outcome = .ok ⟨2, 1, 24, 1⟩ := by decide +kernel
  obtain ⟨_, _, _, within, counts, _⟩ := m.run_within_two_per_line {} code
  obtain ⟨executed, skips⟩ := counts _ completed
  rw [← executed] at within
  exact ⟨completed, skips, within⟩

end Machine

end LivePatch
