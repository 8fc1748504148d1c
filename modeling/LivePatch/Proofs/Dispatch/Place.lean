import LivePatch.Proofs.Dispatch.Flat

namespace LivePatch

namespace Dispatch

/-- Number of bytes that the searches among `es` took beyond one line each. -/
def removed : List Execution → Nat
  | [] => 0
  | e :: es => (if e.instruction.isSearch then e.consumed - 8 else 0) + removed es

variable {H : Type}

/-- The place of a pass over `code` after the executions `es`. -/
structure Placed (code : Bytes) (es : List Execution) (d : Dispatch H) : Prop where
  within : d.tape.position ≤ d.tape.bytes.length
  shrunk : d.tape.bytes.length + removed es = code.length
  lines : code.length % 8 = 0 → d.tape.bytes.length % 8 = 0
  aligned : code.length % 8 = 0 → d.tape.position % 8 ≠ 0 →
    ∃ e blockEnd, es.getLast? = some e ∧ e.flow = .skipTo blockEnd

theorem Transition.kept_eq {d next : Dispatch H} {e : Execution} (change : Transition d e next) :
    e.kept = if e.instruction.isSearch then 8 else e.consumed := by
  cases flow : e.flow with
  | replace address =>
    have search := change.replaces.mpr ⟨address, flow⟩
    simp only [Execution.kept, flow, search, if_true]
  | next | skipTo =>
    have other : e.instruction.isSearch ≠ true := by
      intro search
      obtain ⟨address, replaces⟩ := change.replaces.mp search
      rw [flow] at replaces
      cases replaces
    rw [if_neg other]
    simp only [Execution.kept, flow]

theorem removed_append (es : List Execution) (e : Execution) :
    removed (es ++ [e]) = removed es + if e.instruction.isSearch then e.consumed - 8 else 0 := by
  induction es with
  | nil => simp only [List.nil_append, removed, Nat.add_zero, Nat.zero_add]
  | cons f es ih => rw [List.cons_append, removed, removed, ih, Nat.add_assoc]

theorem placed_opening (m : Machine H) (code : Bytes) : Placed code [] (m.opening code) := by
  have whole : (m.opening code).tape.bytes = code := List.nil_append code
  refine ⟨Nat.zero_le _, ?_, ?_, ?_⟩
  · rw [whole]
    rfl
  · rw [whole]
    exact id
  · intro _ off
    exact absurd rfl off

variable [Host H]

theorem Placed.move {code : Bytes} {es : List Execution} {trace : Bool} {d next : Dispatch H}
    {e : Execution} (placed : Placed code es d) (moved : d.Moves trace e next) :
    Placed code (es ++ [e]) next := by
  have change := moved.transition
  obtain ⟨line, whole, inside⟩ := change.whole
  have kept := change.kept_eq
  have shorter := Execution.length_rewrite line inside
  rw [← change.stream] at shorter
  have total := next.tape.length_bytes
  have given := removed_append es e
  have shrunk := placed.shrunk
  refine ⟨by omega, ?_, ?_, ?_⟩
  · split at kept
    · rename_i search
      rw [if_pos search] at given
      omega
    · rename_i other
      rw [if_neg other] at given
      omega
  · intro start
    rw [moved.length_mod]
    exact placed.lines start
  · intro start off
    have lines := placed.lines start
    have onLine : d.tape.position % 8 = 0 := by
      have aligned := moved.executed.aligned
      have length := d.tape.length_bytes
      omega
    have position := change.position_eq
    have lands := change.lands
    cases flow : e.flow with
    | skipTo blockEnd => exact ⟨e, blockEnd, List.getLast?_concat, flow⟩
    | next =>
      simp only [Lands, flow] at lands
      omega
    | replace address =>
      simp only [Lands, flow] at lands
      omega

theorem Reaches.placed {trace : Bool} {m : Machine H} {code : Bytes} {es : List Execution}
    {d : Dispatch H} (reach : Reaches trace (m.opening code) es d) : Placed code es d := by
  induction reach with
  | start => exact placed_opening m code
  | move _ executed step ih => exact ih.move (moves_iff.mpr ⟨executed, step⟩)

/-- After a skip the closing line stands at the position. -/
theorem Reaches.closing_line {trace : Bool} {start d : Dispatch H} {es : List Execution}
    {e : Execution} {blockEnd : BlockEnd} (reach : Reaches trace start es d)
    (last : es.getLast? = some e) (skipped : e.flow = .skipTo blockEnd) :
    blockEnd.line.toList <+: d.tape.rest := by
  cases reach with
  | start => cases last
  | @move es before other _ reach executed step =>
    rw [List.getLast?_concat] at last
    cases last
    have lands := (moves_iff.mpr ⟨executed, step⟩).lands
    simp only [Lands, skipped] at lands
    exact lands.2.2

theorem Reaches.start_aligned {trace : Bool} {start d : Dispatch H} {es : List Execution}
    (reach : Reaches trace start es d) : (es = [] ∧ d = start) ∨ start.tape.rest.length % 8 = 0 := by
  induction reach with
  | start => exact .inl ⟨rfl, rfl⟩
  | move _ executed step ih =>
    rcases ih with ⟨_, rfl⟩ | aligned
    · exact .inr (moves_iff.mpr ⟨executed, step⟩).executed.aligned
    · exact .inr aligned

/-- One turn of the loop at `d`, after the executions `es`. -/
structure Turn (trace : Bool) (es : List Execution) (d : Dispatch H) : Prop where
  moves : ∀ next, d.step trace = .next next →
    ∃ e, d.execution? trace = some e ∧ Transition d e next
  stops : ∀ last, (d.step trace = .done last ∨ ∃ error, d.step trace = .failed error last) →
    last.tape.bytes = d.tape.bytes
  closes : ∀ e blockEnd, es.getLast? = some e → e.flow = .skipTo blockEnd →
    d.tape.position % 8 = 0 →
    d.execution? trace = some ⟨d.tape.position, blockEnd.instruction, 8, .next⟩

theorem Reaches.turn {trace : Bool} {m : Machine H} {code : Bytes} {es : List Execution}
    {d : Dispatch H} (reach : Reaches trace (m.opening code) es d) : Turn trace es d := by
  refine ⟨?_, ?_, ?_⟩
  · intro next step
    obtain ⟨e, moved⟩ := exists_moves step
    exact ⟨e, moved.executed.execution?_eq, moved.transition⟩
  · intro last step
    obtain ⟨error, final, stopped⟩ := exists_stops step
    exact stopped.stream
  · intro e blockEnd last skipped onLine
    have stands := reach.closing_line last skipped
    have aligned : d.tape.rest.length % 8 = 0 := by
      rcases reach.start_aligned with ⟨rfl, _⟩ | start
      · cases last
      · have lines := reach.placed.lines start
        have length := d.tape.length_bytes
        omega
    exact (executes_closing trace stands aligned).execution?_eq

theorem flat_step_in_range (trace : Bool) (d : Dispatch H) :
    d.flat.step trace ≠ .outOfRange ∧
      ∀ position length y, d.flat.step trace ≠ .failed (.negativeLength position length) y := by
  rw [flat_step]
  rcases moves_or_stops trace d with ⟨e, next, moved⟩ | ⟨error, es, last, stopped⟩
  · rw [moved.step_eq]
    simp [Step.flat]
  · rw [stopped.step_eq]
    cases stopped <;> simp [Step.flat]

theorem run_ne_negativeLength (trace : Bool) (d : Dispatch H) (position length : Nat) :
    (d.run trace).1 ≠ some (.negativeLength position length) := by
  intro failed
  obtain ⟨before, final, stopping, _, stopped, _⟩ := run_reaches_stop trace d
  rw [failed] at stopped
  cases stopped

/-- A pass fails on a broken line before it executes anything, or where a skip has ended. -/
theorem misaligned_run {trace : Bool} {m : Machine H} {code : Bytes} {position remaining : Nat}
    (failed : ((m.opening code).run trace).1 = some (.misalignedLength position remaining)) :
    (code.length % 8 ≠ 0 ∧ position = 0 ∧ (m.opening code).executions trace = []) ∨
      (code.length % 8 = 0 ∧ position % 8 ≠ 0 ∧ ∃ es e blockEnd d,
        (m.opening code).executions trace = es ++ [e] ∧ e.flow = .skipTo blockEnd ∧
          Reaches trace (m.opening code) (es ++ [e]) d ∧ d.tape.position = position) := by
  obtain ⟨before, final, stopping, reach, stopped, all⟩ := run_reaches_stop trace (m.opening code)
  rw [failed] at stopped
  cases stopped with
  | misaligned broken =>
    rw [List.append_nil] at all
    rcases reach.start_aligned with ⟨rfl, unmoved⟩ | start
    · rw [unmoved] at broken ⊢
      exact .inl ⟨broken, rfl, all⟩
    · have lines := reach.placed.lines start
      have length := ((m.opening code).run trace).2.tape.length_bytes
      have off : ((m.opening code).run trace).2.tape.position % 8 ≠ 0 := by omega
      obtain ⟨e, blockEnd, last, skipped⟩ := reach.placed.aligned start off
      obtain ⟨es, rfl⟩ := List.getLast?_eq_some_iff.mp last
      exact .inr ⟨start, off, es, e, blockEnd, _, all, skipped, reach, rfl⟩

end Dispatch

/-- At every turn of the loop of a run the pass is in its place, a loop that checks every range of
the whole stream makes the same run, and a broken line is met only at the start or after a skip. -/
theorem Machine.run_keeps_place {H : Type} [Host H] (m : Machine H) (config : Config) (code : Bytes) :
    (∀ es d, Dispatch.Reaches config.trace ((m.gated config).opening code) es d →
      d.Placed code es ∧ d.Turn config.trace es) ∧
    (∀ x, Flat.Reaches config.trace ((m.gated config).opening code).flat x →
      (∃ es d, Dispatch.Reaches config.trace ((m.gated config).opening code) es d ∧ x = d.flat ∧
        x.step config.trace = (d.step config.trace).flat) ∧
      x.step config.trace ≠ .outOfRange ∧
        ∀ position length y, x.step config.trace ≠ .failed (.negativeLength position length) y) ∧
    (∀ position length, (m.run config code).outcome ≠ .error (.negativeLength position length)) ∧
    ∀ position remaining,
      (m.run config code).outcome = .error (.misalignedLength position remaining) →
      (code.length % 8 ≠ 0 ∧ position = 0 ∧ m.executions config code = []) ∨
      (code.length % 8 = 0 ∧ position % 8 ≠ 0 ∧ ∃ es e blockEnd d,
        m.executions config code = es ++ [e] ∧ e.flow = .skipTo blockEnd ∧
          Dispatch.Reaches config.trace ((m.gated config).opening code) (es ++ [e]) d ∧
          d.tape.position = position) := by
  refine ⟨?_, ?_, ?_, ?_⟩
  · intro es d reach
    exact ⟨reach.placed, reach.turn⟩
  · intro x reach
    obtain ⟨es, d, reached, rfl⟩ := Dispatch.exists_dispatch_of_flat reach
    exact ⟨⟨es, d, reached, rfl, d.flat_step config.trace⟩, d.flat_step_in_range config.trace⟩
  · intro position length failed
    exact Dispatch.run_ne_negativeLength _ _ position length (run_eq_of_outcome_error failed)
  · intro position remaining failed
    exact Dispatch.misaligned_run (run_eq_of_outcome_error failed)

/-- A test that fails in front of a string with a terminator line inside skips to the middle of a
line. -/
theorem Machine.run_keeps_place_off_line :
    let m : Machine Memory := { host := {} }
    let code := (Instruction.test .equal ⟨.absolute, 16⟩ .word 1 0).encode ++
      (Instruction.writeString ⟨.absolute, 32⟩ ([1, 2, 3] ++ terminatorLine.toList)).encode
    (m.run {} code).outcome = .error (.misalignedLength 27 13) ∧
      ∃ es e blockEnd d, m.executions {} code = es ++ [e] ∧ e.flow = .skipTo blockEnd ∧
        Dispatch.Reaches false ((m.gated {}).opening code) (es ++ [e]) d ∧ d.tape.position = 27 ∧
        d.Placed code (es ++ [e]) ∧ d.Turn false (es ++ [e]) := by
  intro m code
  have failed : (m.run {} code).outcome = .error (.misalignedLength 27 13) := by decide +kernel
  obtain ⟨turns, _, _, broken⟩ := m.run_keeps_place {} code
  refine ⟨failed, ?_⟩
  rcases broken _ _ failed with ⟨lines, _⟩ | ⟨_, _, es, e, blockEnd, d, all, skips, reach, place⟩
  · exact absurd (by decide) lines
  · obtain ⟨placed, turn⟩ := turns _ d reach
    exact ⟨es, e, blockEnd, d, all, skips, reach, place, placed, turn⟩

end LivePatch
