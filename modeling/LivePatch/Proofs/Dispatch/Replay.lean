import LivePatch.Proofs.Dispatch.Transition
import LivePatch.Proofs.Host.Quiet

namespace LivePatch

namespace Tape

/-- Both tapes stand after the same bytes, and the next `k` bytes are the same. -/
structure Agree (k : Nat) (t u : Tape) : Prop where
  passed : t.passed = u.passed
  ahead : t.rest.take k = u.rest.take k

theorem Agree.mono {t u : Tape} {j k : Nat} (agree : Agree k t u) (fewer : j ≤ k) : Agree j t u := by
  refine ⟨agree.passed, ?_⟩
  have cut := congrArg (List.take j) agree.ahead
  rwa [List.take_take, List.take_take, Nat.min_eq_left fewer] at cut

theorem Agree.advance {t u : Tape} {n k : Nat} (agree : Agree (n + k) t u) :
    Agree k (t.advance n) (u.advance n) := by
  have first := (agree.mono (Nat.le_add_right n k)).ahead
  have later := congrArg (List.drop n) agree.ahead
  rw [List.drop_take, List.drop_take, Nat.add_sub_cancel_left] at later
  refine ⟨?_, later⟩
  simp only [Tape.advance, agree.passed, first]

theorem agree_of_prefix {t u : Tape} {k : Nat} (passed : t.passed = u.passed)
    (shared : t.passed.toList ++ t.rest.take k <+: u.bytes) (within : k ≤ t.rest.length) :
    Agree k t u := by
  refine ⟨passed, ?_⟩
  rw [bytes, ← passed] at shared
  have ahead := (List.prefix_append_right_inj _).mp shared
  have size : (t.rest.take k).length = k := by
    rw [List.length_take]
    omega
  rw [List.prefix_iff_eq_take, size] at ahead
  exact ahead

theorem Agree.decode_eq {t u : Tape} {i : Instruction} {n : Nat} (agree : Agree n t u)
    (decoded : decode t.rest = .ok (i, n)) : decode u.rest = .ok (i, n) := by
  rw [← List.take_append_drop n u.rest, ← agree.ahead]
  exact decode_take_append decoded _

theorem Agree.find?_eq {t u : Tape} {pattern : Bytes} {offset : Nat}
    (agree : Agree (offset + pattern.length) t u)
    (found : Stream.find? pattern t.rest = some offset) :
    Stream.find? pattern u.rest = some offset := by
  rw [← List.take_append_drop (offset + pattern.length) u.rest, ← agree.ahead]
  exact Stream.find?_take_append found _

end Tape

namespace Dispatch

variable {H : Type}

/-- Two passes that differ in their logs and in the number of executed instructions at most. -/
structure Matches (d again : Dispatch H) : Prop where
  tape : d.tape = again.tape
  machine : d.machine.Alike Eq again.machine
  skipped : d.skipped = again.skipped

theorem Matches.closingState_eq {d again : Dispatch H} (alike : d.Matches again)
    (error : Option PassError) : again.closingState error = d.closingState error :=
  closingState_congr alike.machine.state.symm error

variable [Host H]

theorem perform_same {d again : Dispatch H} (alike : d.machine.Alike Eq again.machine) (trace : Bool)
    (i : Instruction) :
    (d.perform trace i).1 = (again.perform trace i).1 ∧
      (d.perform trace i).2.machine.Alike Eq (again.perform trace i).2.machine :=
  perform_twin alike (Bisimulation.eq H) trace trace i

/-- A step leaves what it has passed behind as it is. -/
theorem Moves.passed_prefix {trace : Bool} {d next : Dispatch H} {e : Execution}
    (moved : d.Moves trace e next) : d.tape.passed.toList <+: next.tape.passed.toList := by
  cases moved with
  | onward executed flow =>
    rw [Tape.toList_passed_advance]
    exact List.prefix_append _ _
  | skip executed flow found =>
    rw [Tape.toList_passed_advance, Tape.toList_passed_advance, List.append_assoc]
    exact List.prefix_append _ _
  | replace executed flow => exact List.prefix_rfl

/-- What a pass has behind it stays in the stream to its end. -/
theorem Runs.passed_prefix {trace : Bool} {d last : Dispatch H} {es : List Execution}
    {error : Option PassError} (runs : Runs trace d es error last) :
    d.tape.passed.toList <+: last.tape.bytes := by
  induction runs with
  | stop stopped =>
    rw [stopped.stream]
    exact List.prefix_append _ _
  | move moved _ ih => exact moved.passed_prefix.trans ih

/-- So does the instruction at the position, unless it is a search: it is executed next or not at all. -/
theorem Runs.decoded_prefix {trace : Bool} {d last : Dispatch H} {es : List Execution}
    {error : Option PassError} {i : Instruction} {n : Nat} (runs : Runs trace d es error last)
    (decoded : decode d.tape.rest = .ok (i, n)) (other : i.isSearch = false) :
    d.tape.passed.toList ++ d.tape.rest.take n <+: last.tape.bytes := by
  cases runs with
  | stop stopped =>
    rw [stopped.stream, Tape.bytes, List.prefix_append_right_inj]
    exact List.take_prefix _ _
  | @move _ e next es _ _ moved rest =>
    have here := moved.executed.decoded
    rw [decoded] at here
    have further := rest.passed_prefix
    cases moved with
    | onward executed flow =>
      rw [Tape.toList_passed_advance] at further
      cases here
      exact further
    | skip executed flow found =>
      rw [Tape.toList_passed_advance, Tape.toList_passed_advance] at further
      cases here
      exact (List.prefix_append _ _).trans further
    | replace executed flow =>
      have search := executed.isSearch_iff.mpr ⟨_, flow⟩
      cases here
      rw [other] at search
      cases search

theorem Runs.closing_prefix {trace : Bool} {d last : Dispatch H} {es : List Execution}
    {error : Option PassError} {blockEnd : BlockEnd} (runs : Runs trace d es error last)
    (stands : blockEnd.line.toList <+: d.tape.rest) :
    d.tape.passed.toList ++ blockEnd.line.toList <+: last.tape.bytes := by
  obtain ⟨tail, split⟩ := stands
  have decoded := blockEnd.decode_line_append tail
  rw [split] at decoded
  have shared := runs.decoded_prefix decoded (by cases blockEnd <;> rfl)
  rwa [← split, List.take_left' blockEnd.line.length_toList] at shared

theorem Runs.length_mod {trace : Bool} {d last : Dispatch H} {es : List Execution}
    {error : Option PassError} (runs : Runs trace d es error last) :
    last.tape.bytes.length % 8 = d.tape.bytes.length % 8 := by
  induction runs with
  | stop stopped => rw [stopped.stream]
  | move moved _ ih => rw [ih, moved.length_mod]

/-- How a second run stands to the first at `d`, which ends at `last`. -/
structure Retraces (d last again : Dispatch H) : Prop where
  passed : d.tape.passed = again.tape.passed
  final : again.tape.bytes = last.tape.bytes
  machine : d.machine.Alike Eq again.machine
  skipped : d.skipped = again.skipped

theorem Retraces.aligned {trace : Bool} {d last again : Dispatch H} {es : List Execution}
    {error : Option PassError} (retraces : Retraces d last again)
    (runs : Runs trace d es error last) (aligned : d.tape.rest.length % 8 = 0) :
    again.tape.rest.length % 8 = 0 := by
  have lines := runs.length_mod
  have position : d.tape.position = again.tape.position := by
    rw [Tape.position, Tape.position, retraces.passed]
  have length := d.tape.length_bytes
  have lengthAgain := again.tape.length_bytes
  rw [retraces.final] at lengthAgain
  omega

/-- The second run executes what the first did, if it has the same bytes ahead. -/
theorem Retraces.executes {trace : Bool} {d last again : Dispatch H} {es : List Execution}
    {error : Option PassError} {e : Execution} (retraces : Retraces d last again)
    (runs : Runs trace d es error last) (executed : d.Executes trace e)
    (agree : d.tape.Agree e.consumed again.tape) : again.Executes trace e := by
  have performed := perform_same retraces.machine trace e.instruction
  refine ⟨retraces.aligned runs executed.aligned, agree.decode_eq executed.decoded, ?_, ?_⟩
  · rw [executed.position_eq, Tape.position, Tape.position, retraces.passed]
  · rw [← performed.1, executed.flow_eq]

theorem Retraces.stop {trace : Bool} {d last again : Dispatch H} {es : List Execution}
    {error : Option PassError} (retraces : Retraces d last again)
    (stopped : d.Stops trace error es last) :
    ∃ lastAgain, again.Stops trace error es lastAgain ∧ last.Matches lastAgain := by
  have tape : d.tape = again.tape := by
    have whole := retraces.final
    rw [stopped.stream, Tape.bytes, Tape.bytes, ← retraces.passed] at whole
    exact Tape.ext retraces.passed (List.append_cancel_left whole).symm
  have runs : Runs trace d es error last := .stop stopped
  cases stopped with
  | ended empty =>
    exact ⟨again, .ended (by rwa [← tape]), tape, retraces.machine, retraces.skipped⟩
  | misaligned broken =>
    rw [tape] at broken ⊢
    exact ⟨again, .misaligned broken, tape, retraces.machine, retraces.skipped⟩
  | undecodable aligned nonempty decoded =>
    rw [tape] at aligned nonempty decoded ⊢
    exact ⟨again, .undecodable aligned nonempty decoded, tape, retraces.machine, retraces.skipped⟩
  | @unterminated e blockEnd executed flow missing =>
    have agree : d.tape.Agree e.consumed again.tape := ⟨retraces.passed, by rw [tape]⟩
    have performed := perform_same retraces.machine trace e.instruction
    have executedAgain := retraces.executes runs executed agree
    rw [tape] at missing ⊢
    exact ⟨_, .unterminated executedAgain flow missing, rfl, performed.2, retraces.skipped⟩

/-- The bytes that a skip has looked at, the closing line included, stay in the stream. -/
theorem Runs.skip_prefix {trace : Bool} {d last next : Dispatch H} {es : List Execution}
    {error : Option PassError} {blockEnd : BlockEnd} {consumed offset : Nat}
    (runs : Runs trace next es error last)
    (landed : next.tape = (d.tape.advance consumed).advance offset)
    (found : Stream.find? blockEnd.line.toList (d.tape.rest.drop consumed) = some offset) :
    d.tape.passed.toList ++ d.tape.rest.take (consumed + (offset + 8)) <+: last.tape.bytes := by
  have stands : blockEnd.line.toList <+: next.tape.rest := by
    rw [landed]
    exact (Stream.find?_eq_some_iff.mp found).2.1
  have shared := runs.closing_prefix stands
  have line := List.prefix_iff_eq_take.mp stands
  rw [Vector.length_toList] at line
  rw [line, landed, Tape.toList_passed_advance, Tape.toList_passed_advance] at shared
  rwa [List.take_add, List.take_add, ← List.append_assoc, ← List.append_assoc]

variable [QuietHost H]

theorem Executes.search_alike {trace : Bool} {d : Dispatch H} {e : Execution} {address : UInt32}
    (executed : d.Executes trace e) (flow : e.flow = .replace address) :
    (d.perform trace e.instruction).2.machine.Alike Eq d.machine := by
  obtain ⟨template, index, startHigh, stopHigh, same⟩ :=
    Machine.search_of_replace (executed.flow_eq.trans flow)
  rw [same]
  have unchanged := Machine.search_alike
    (d.machine.report (executionEvent trace d.tape.position (.search template index startHigh stopHigh)))
    template index (addressOfHigh startHigh) (addressOfHigh stopHigh)
  exact ⟨unchanged.state, unchanged.host⟩

/-- A second run makes the move that the first made, or stays where it is if that was a search. -/
theorem Retraces.move {trace : Bool} {d next last again : Dispatch H} {e : Execution}
    {es : List Execution} {error : Option PassError} (retraces : Retraces d last again)
    (moved : d.Moves trace e next) (rest : Runs trace next es error last) :
    (e.instruction.isSearch = true ∧ Retraces next last again) ∨
      (e.instruction.isSearch = false ∧
        ∃ nextAgain, again.Moves trace e nextAgain ∧ Retraces next last nextAgain) := by
  have runs := Runs.move moved rest
  have bytes := retraces.final
  have performed := perform_same retraces.machine trace e.instruction
  obtain ⟨_, _, within⟩ := moved.executed.consumed_bounds
  cases moved with
  | onward executed flow =>
    have shared := rest.passed_prefix
    rw [Tape.toList_passed_advance, ← bytes] at shared
    have agree := Tape.agree_of_prefix retraces.passed shared within
    refine .inr ⟨executed.isSearch_eq_false (by simp [flow]), _,
      .onward (retraces.executes runs executed agree) flow, ?_⟩
    exact ⟨(agree.advance (k := 0)).passed, (Tape.bytes_advance _ _).trans bytes, performed.2,
      retraces.skipped⟩
  | @skip blockEnd offset executed flow found =>
    -- The closing line was found ahead of the position, so what has to be final here reaches
    -- further than what is passed.
    have bound := Stream.find?_bound found
    rw [List.length_drop, Vector.length_toList] at bound
    have shared := rest.skip_prefix rfl found
    rw [← bytes] at shared
    have agree := Tape.agree_of_prefix retraces.passed shared (by omega)
    have beyond := agree.advance
    have executedAgain := retraces.executes runs executed (agree.mono (Nat.le_add_right _ _))
    have foundAgain : Stream.find? blockEnd.line.toList (again.tape.rest.drop e.consumed) =
        some offset := by
      rw [← blockEnd.line.length_toList] at beyond
      exact beyond.find?_eq found
    refine .inr ⟨executed.isSearch_eq_false (by simp [flow]), _,
      .skip executedAgain flow foundAgain, ?_⟩
    exact ⟨beyond.advance.passed,
      ((Tape.bytes_advance _ _).trans (Tape.bytes_advance _ _)).trans bytes,
      performed.2.report _ _, congrArg (· + 1) retraces.skipped⟩
  | replace executed flow =>
    have unchanged := executed.search_alike flow
    refine .inl ⟨executed.isSearch_iff.mpr ⟨_, flow⟩, retraces.passed, bytes, ?_, retraces.skipped⟩
    exact ⟨unchanged.state.trans retraces.machine.state, unchanged.host.trans retraces.machine.host⟩

theorem length_filter_search (es : List Execution) :
    (es.filter (!·.instruction.isSearch)).length + es.countP (·.instruction.isSearch) =
      es.length := by
  induction es with
  | nil => rfl
  | cons e es ih =>
    cases search : e.instruction.isSearch with
    | true => simp [search, ← ih, Nat.add_assoc]
    | false => simp [search, ← ih, Nat.add_right_comm]

/-- A second run executes what the first did without the searches, and ends where it ended. -/
theorem Runs.replay {trace : Bool} {d last : Dispatch H} {es : List Execution}
    {error : Option PassError} (runs : Runs trace d es error last) :
    ∀ again, Retraces d last again → ∃ lastAgain,
      Runs trace again (es.filter (!·.instruction.isSearch)) error lastAgain ∧
        last.Matches lastAgain := by
  induction runs with
  | @stop d error es last stopped =>
    intro again retraces
    obtain ⟨lastAgain, stoppedAgain, alike⟩ := retraces.stop stopped
    have others : es.filter (!·.instruction.isSearch) = es := by
      rw [List.filter_eq_self]
      intro e member
      rw [stopped.searchless e member, Bool.not_false]
    rw [others]
    exact ⟨lastAgain, .stop stoppedAgain, alike⟩
  | @move d e next es error last moved rest ih =>
    intro again retraces
    rcases retraces.move moved rest with ⟨search, stays⟩ | ⟨other, nextAgain, movedAgain, retraces⟩
    · obtain ⟨lastAgain, runsAgain, alike⟩ := ih again stays
      exact ⟨lastAgain, by simpa [search] using runsAgain, alike⟩
    · obtain ⟨lastAgain, runsAgain, alike⟩ := ih nextAgain retraces
      exact ⟨lastAgain, by simpa [other] using Runs.move movedAgain runsAgain, alike⟩

end Dispatch

namespace Machine

variable {H : Type} [Host H] [QuietHost H]

/-- A stream that a run has rewritten runs from the same start to the same end, in the same way but
for the searches, which are no longer there. -/
theorem run_rewritten (m : Machine H) (config : Config) (code : Bytes) :
    let first := m.run config code
    let again := m.run config first.code
    again.machine.state = first.machine.state ∧ again.machine.host = first.machine.host ∧
      again.code = first.code ∧
      m.executions config first.code =
        (m.executions config code).filter (!·.instruction.isSearch) ∧
      (∀ error, first.outcome = .error error → again.outcome = .error error) ∧
      ∀ summary, first.outcome = .ok summary → ∃ instructions,
        again.outcome = .ok { summary with instructions } ∧
          instructions + (m.executions config code).countP (·.instruction.isSearch) =
            summary.instructions := by
  intro first again
  obtain ⟨es, error, last, runs⟩ :=
    ((m.gated config).opening code).exists_runs config.trace
  obtain ⟨executed, outcome, bytes, state, host⟩ := run_of_runs runs
  have retraces : Dispatch.Retraces ((m.gated config).opening code) last
      ((m.gated config).opening first.code) :=
    ⟨rfl, bytes, ⟨rfl, rfl⟩, rfl⟩
  obtain ⟨lastAgain, runsAgain, alike⟩ := runs.replay _ retraces
  obtain ⟨executedAgain, outcomeAgain, bytesAgain, stateAgain, hostAgain⟩ := run_of_runs runsAgain
  have counted := runs.instructions_eq
  have countedAgain := runsAgain.instructions_eq
  refine ⟨?_, ?_, ?_, ?_, ?_, ?_⟩
  · rw [stateAgain, state, alike.closingState_eq]
  · rw [hostAgain, host, alike.machine.host]
  · rw [bytesAgain, bytes, alike.tape]
  · rw [executedAgain, executed]
  · intro failure failed
    rw [outcomeAgain]
    rw [outcome] at failed
    cases error with
    | none => cases failed
    | some error => exact failed
  · intro summary completed
    rw [outcomeAgain]
    rw [outcome] at completed
    cases error with
    | some error => cases completed
    | none =>
      cases completed
      refine ⟨lastAgain.instructions, ?_, ?_⟩
      · simp only [Dispatch.outcome, alike.tape, alike.machine.state, alike.skipped]
      · have parts := Dispatch.length_filter_search es
        have started : ((m.gated config).opening code).instructions = 0 := rfl
        have startedAgain : ((m.gated config).opening first.code).instructions = 0 := rfl
        rw [executed]
        show lastAgain.instructions + _ = last.instructions
        omega

/-- A template that stands at address 3 is searched once and not again. -/
theorem run_rewritten_found :
    let m : Machine Memory := { host := ({} : Memory).load 3 [0xAB, 0xCD] }
    let code := [Instruction.search [0xAB, 0xCD] 0 0 1, .write ⟨.relative, 1⟩ .byte 7,
      .terminator].flatMap Instruction.encode
    (m.run {} code).outcome = .ok ⟨4, 0, 32, 1⟩ ∧
      (m.executions {} code).countP (·.instruction.isSearch) = 1 ∧
      (m.run {} (m.run {} code).code).outcome = .ok ⟨3, 0, 32, 1⟩ := by
  intro m code
  have first : (m.run {} code).outcome = .ok ⟨4, 0, 32, 1⟩ := by decide +kernel
  have once : (m.executions {} code).countP (·.instruction.isSearch) = 1 := by decide +kernel
  obtain ⟨instructions, again, counted⟩ := (m.run_rewritten {} code).2.2.2.2.2 _ first
  have three : instructions = 3 := by
    rw [once] at counted
    exact Nat.succ.inj counted
  rw [three] at again
  exact ⟨first, once, again⟩

end Machine

end LivePatch
