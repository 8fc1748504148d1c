import LivePatch.Proofs.Dispatch.Concatenation
import LivePatch.Proofs.Dispatch.Passes
import LivePatch.Proofs.Dispatch.Replay

namespace LivePatch

namespace Dispatch

variable {H : Type} [Host H] {trace : Bool}

theorem Moves.rest_suffix {d next : Dispatch H} {e : Execution} (moved : d.Moves trace e next)
    (other : e.instruction.isSearch = false) : next.tape.rest <:+ d.tape.rest := by
  cases moved with
  | onward executed flow => exact List.drop_suffix _ _
  | skip executed flow found => exact (List.drop_suffix _ _).trans (List.drop_suffix _ _)
  | replace executed flow =>
    rw [executed.isSearch_iff.mpr ⟨_, flow⟩] at other
    cases other

/-- A pass without a search leaves the stream as it is. -/
theorem Runs.stream_of_searchless {d last : Dispatch H} {es : List Execution}
    {error : Option PassError} (runs : Runs trace d es error last)
    (searchless : ∀ e ∈ es, e.instruction.isSearch = false) : last.tape.bytes = d.tape.bytes := by
  induction runs with
  | stop stopped => exact stopped.stream
  | @move d e next es error last moved _ ih =>
    rw [ih fun f member => searchless f (List.mem_cons_of_mem e member)]
    exact moved.stream_of_other (searchless e List.mem_cons_self)

theorem Runs.stops_unreadable {d last : Dispatch H} {es : List Execution} {position : Nat}
    {cause : DecodeError} (runs : Runs trace d es (some (.decode position cause)) last) :
    position = last.tape.position ∧ last.tape.rest.length % 8 = 0 := by
  obtain ⟨_, _, stopping, _, stopped, _⟩ := runs.reaches_stop .start
  cases stopped with
  | undecodable aligned => exact ⟨rfl, aligned⟩

/-- Where a pass comes to a line that it cannot read, what is left was left all along. -/
theorem Runs.rest_suffix {d last : Dispatch H} {es : List Execution} {position : Nat}
    {cause : DecodeError} {error : Option PassError} (runs : Runs trace d es error last)
    (unreadable : error = some (.decode position cause))
    (searchless : ∀ e ∈ es, e.instruction.isSearch = false) :
    last.tape.rest <:+ d.tape.rest := by
  induction runs with
  | stop stopped =>
    cases stopped with
    | undecodable => exact List.suffix_rfl
    | ended | misaligned | unterminated => cases unreadable
  | @move d e next es error last moved _ ih =>
    have later := ih unreadable fun f member => searchless f (List.mem_cons_of_mem e member)
    exact later.trans (moved.rest_suffix (searchless e List.mem_cons_self))

/-- A closing line at the position is read, so it is not among what is left. -/
theorem Runs.closing_read {d last : Dispatch H} {es : List Execution} {position : Nat}
    {cause : DecodeError} {blockEnd : BlockEnd}
    (runs : Runs trace d es (some (.decode position cause)) last)
    (searchless : ∀ e ∈ es, e.instruction.isSearch = false)
    (stands : blockEnd.line.toList <+: d.tape.rest) :
    last.tape.rest.length + 8 ≤ d.tape.rest.length := by
  have line := stands.length_le
  rw [Vector.length_toList] at line
  cases runs with
  | stop stopped =>
    cases stopped with
    | undecodable aligned nonempty decoded =>
      have executes := executes_closing trace stands aligned
      rw [executes.decoded] at decoded
      cases decoded
  | @move _ e next es _ _ moved rest =>
    have left := rest.rest_suffix rfl fun f member => searchless f (List.mem_cons_of_mem e member)
    cases moved.eq_closing stands
    cases moved with
    | onward executed flow =>
      have shorter : last.tape.rest.length ≤ d.tape.rest.length - 8 := by
        simpa using left.length_le
      omega
    | skip executed flow | replace executed flow => cases flow

namespace Framed

variable {tail : Bytes} {part whole next : Dispatch H} {e : Execution}

/-- A stretch executes what the longer stream executes within it. -/
theorem executes_within (framed : part.Framed [] tail 0 0 whole) (lines : tail.length % 8 = 0)
    (executed : whole.Executes trace e) (within : e.consumed ≤ part.tape.rest.length) :
    part.Executes trace e := by
  have performed := perform_twin framed.machine (.eq H) trace trace e.instruction
  obtain ⟨aligned, decoded, position, flow⟩ := executed
  rw [framed.tape.rest] at aligned decoded
  constructor
  · rw [List.length_append] at aligned
    omega
  · have cut := decode_take_append decoded (part.tape.rest.drop e.consumed)
    rwa [List.take_append_of_le_length within, List.take_append_drop] at cut
  · rw [position, framed.tape.position_eq, List.length_nil, Nat.zero_add]
  · exact performed.1.trans flow

/-- A stretch makes the moves of the longer stream that stay within it. What a skip looks for has to
be within it too. -/
theorem move_within (framed : part.Framed [] tail 0 0 whole) (lines : tail.length % 8 = 0)
    (moved : whole.Moves trace e next) (other : e.instruction.isSearch = false)
    (stays : tail.length ≤ next.tape.rest.length)
    (closes : ∀ blockEnd, e.flow = .skipTo blockEnd → tail.length + 8 ≤ next.tape.rest.length) :
    ∃ nextPart, part.Moves trace e nextPart ∧ nextPart.Framed [] tail 0 0 next := by
  have bounds := moved.executed.consumed_bounds
  have length := congrArg List.length framed.tape.rest
  rw [List.length_append] at length
  have performed := (perform_twin framed.machine (.eq H) trace trace e.instruction).2
  have counted : whole.instructions + 1 = 0 + (part.instructions + 1) :=
    congrArg (· + 1) framed.instructions
  cases moved with
  | onward executed flow =>
    rw [Tape.rest_advance, List.length_drop] at stays
    have within : e.consumed ≤ part.tape.rest.length := by omega
    have executes := framed.executes_within lines executed within
    exact ⟨_, .onward executes flow, framed.tape.advance within, performed, counted, framed.skipped⟩
  | @skip blockEnd offset executed flow found =>
    have room := closes blockEnd flow
    rw [Tape.rest_advance, Tape.rest_advance, List.length_drop, List.length_drop] at room
    have within : e.consumed ≤ part.tape.rest.length := by omega
    have executes := framed.executes_within lines executed within
    have onward := framed.tape.advance within
    have reaches : offset + blockEnd.line.toList.length ≤ (part.tape.rest.drop e.consumed).length := by
      rw [Vector.length_toList, List.length_drop]
      omega
    have foundWithin :
        Stream.find? blockEnd.line.toList (part.tape.rest.drop e.consumed) = some offset := by
      rw [framed.tape.rest, List.drop_append_of_le_length within] at found
      have cut := Stream.find?_take_append found
        ((part.tape.rest.drop e.consumed).drop (offset + blockEnd.line.toList.length))
      rwa [List.take_append_of_le_length reaches, List.take_append_drop] at cut
    refine ⟨_, .skip executes flow foundWithin, ?_, performed.report _ _, counted, ?_⟩
    · refine onward.advance ?_
      rw [Tape.rest_advance]
      omega
    · exact congrArg (· + 1) framed.skipped
  | replace executed flow =>
    rw [executed.isSearch_iff.mpr ⟨_, flow⟩] at other
    cases other

end Framed

/-- Without what cannot be read, the same is executed, and the pass completes. -/
theorem Runs.cut {d last : Dispatch H} {es : List Execution} {position : Nat} {cause : DecodeError}
    {error : Option PassError} (runs : Runs trace d es error last)
    (unreadable : error = some (.decode position cause))
    (searchless : ∀ e ∈ es, e.instruction.isSearch = false) :
    ∀ part : Dispatch H, part.Framed [] last.tape.rest 0 0 d →
      ∃ lastPart, Runs trace part es none lastPart ∧ lastPart.Framed [] last.tape.rest 0 0 last := by
  induction runs with
  | stop stopped =>
    intro part framed
    cases stopped with
    | undecodable aligned nonempty decoded =>
      have empty : part.tape.rest = [] := List.self_eq_append_left.mp framed.tape.rest
      exact ⟨part, .stop (.ended empty), framed⟩
    | ended | misaligned | unterminated => cases unreadable
  | @move d e next es error last moved rest ih =>
    intro part framed
    subst unreadable
    have searchlessLater : ∀ f ∈ es, f.instruction.isSearch = false :=
      fun f member => searchless f (List.mem_cons_of_mem e member)
    have lines := rest.stops_unreadable.2
    have stays := (rest.rest_suffix rfl searchlessLater).length_le
    have closes : ∀ blockEnd, e.flow = .skipTo blockEnd →
        last.tape.rest.length + 8 ≤ next.tape.rest.length := by
      intro blockEnd flow
      have lands := moved.lands
      simp only [Lands, flow] at lands
      exact rest.closing_read searchlessLater lands.2.2
    obtain ⟨nextPart, moves, further⟩ :=
      framed.move_within lines moved (searchless e List.mem_cons_self) stays closes
    obtain ⟨lastPart, runs, ended⟩ := ih rfl searchlessLater nextPart further
    exact ⟨lastPart, .move moves runs, ended⟩

end Dispatch

namespace Machine

variable {H : Type}

theorem settled_finishPass (m : Machine H) (config : Config) (s : State) :
    m.settled config s.finishPass =
      { m.settled config s with count := (m.settled config s).count + 1 } := by
  unfold settled
  split <;> rfl

variable [Host H]

/-- The stream that such a run leaves gives a run without searches: the run itself if it has none, and
its replay on a host on which reading leaves no mark. -/
theorem exists_searchless_run {m : Machine H} {config : Config} {code : Bytes} {es : List Execution}
    {error : Option PassError} {last : Dispatch (Gate H)}
    (runs : Dispatch.Runs config.trace ((m.gated config).opening code) es error last)
    (reads : QuietHost H ∨ ∀ e ∈ es, e.instruction.isSearch = false) :
    ∃ again, Dispatch.Runs config.trace ((m.gated config).opening last.tape.bytes)
        (es.filter (!·.instruction.isSearch)) error again ∧ last.Matches again := by
  rcases reads with quiet | searchless
  · exact runs.replay _ ⟨rfl, rfl, ⟨rfl, rfl⟩, rfl⟩
  · have unchanged : last.tape.bytes = code := runs.stream_of_searchless searchless
    have all : es.filter (!·.instruction.isSearch) = es :=
      List.filter_eq_self.mpr fun e member => by rw [searchless e member]; rfl
    rw [unchanged, all]
    exact ⟨last, runs, rfl, ⟨rfl, rfl⟩, rfl⟩

theorem runs_before_unreadable {m : Machine H} {config : Config} {code : Bytes}
    {es : List Execution} {position : Nat} {cause : DecodeError} {last : Dispatch (Gate H)}
    (runs : Dispatch.Runs config.trace ((m.gated config).opening code) es
      (some (.decode position cause)) last)
    (searchless : ∀ e ∈ es, e.instruction.isSearch = false) :
    ∃ lastPart, Dispatch.Runs config.trace ((m.gated config).opening (code.take position)) es none
        lastPart ∧ lastPart.machine.Alike Eq last.machine ∧
      lastPart.tape.bytes = code.take position := by
  have unchanged : last.tape.bytes = code := runs.stream_of_searchless searchless
  have front : code.take position = last.tape.passed.toList := by
    rw [runs.stops_unreadable.1, ← unchanged, Tape.take_position]
  have start : ((m.gated config).opening (code.take position)).Framed [] last.tape.rest 0 0
      ((m.gated config).opening code) := by
    refine ⟨⟨rfl, ?_⟩, ⟨rfl, rfl⟩, rfl, rfl⟩
    rw [front]
    exact unchanged.symm
  obtain ⟨lastPart, runsPart, framed⟩ := runs.cut rfl searchless _ start
  exact ⟨lastPart, runsPart, framed.machine, runsPart.stream_of_searchless searchless⟩

/-- A run that stops at a line which cannot be read leaves what the bytes before that line lead to, and
one completed pass less. Over any calls on a machine, live or dry, the counter moves by the number of
passes that complete; several passes in one call end with the first that fails. -/
theorem fails_without_effect :
    (∀ (m : Machine H) (config : Config) (code : Bytes) (position : Nat) (cause : DecodeError),
      let failed := m.run config code
      let before := failed.code.take position
      failed.outcome = .error (.decode position cause) →
      (QuietHost H ∨ ∀ e ∈ m.executions config code, e.instruction.isSearch = false) →
      (∃ summary, (m.run config before).outcome = .ok summary) ∧
        (m.run config before).machine.host = failed.machine.host ∧
        (m.run config before).machine.state =
          { failed.machine.state with count := failed.machine.state.count + 1 } ∧
        (m.run config before).code = before ∧
        m.executions config before = (m.executions config code).filter (!·.instruction.isSearch)) ∧
    (∀ (m : Machine H) (calls : List Call),
      (m.afterCalls calls).state.count.toNat =
        (m.state.count.toNat + (m.callsOutcomes calls).countP (·.isOk)) % UInt32.size) ∧
    ∀ (m : Machine H) (config : Config) (passes : Nat) (code : Bytes),
      let r := m.runPasses config passes code
      (∀ summaries, r.outcome = .ok summaries →
        outcomes config passes code m = summaries.toList.map .ok ∧ summaries.size = passes ∧
          r.machine.state.count = m.state.count + UInt32.ofNat passes ∧
          ∀ k summary, summaries[k]? = some summary →
            summary.executionCount = m.state.count + UInt32.ofNat (k + 1)) ∧
      ∀ error, r.outcome = .error error → ∃ summaries : List Summary,
        let before := m.runPasses config summaries.length code
        let failing := before.machine.run config before.code
        outcomes config passes code m = summaries.map .ok ++ [.error error] ∧
          summaries.length < passes ∧ before.outcome = .ok summaries.toArray ∧
          failing.outcome = .error error ∧ r.code = failing.code ∧ r.machine = failing.machine ∧
          r.machine.state.count = m.state.count + UInt32.ofNat summaries.length := by
  refine ⟨?_, ?_, ?_⟩
  · intro m config code position cause failed before stopped reads
    have runs := ((m.gated config).opening code).runs_run config.trace
    rw [run_eq_of_outcome_error stopped] at runs
    obtain ⟨executed, _, bytes, state, host⟩ := run_of_runs runs
    rw [executed] at reads
    obtain ⟨again, runsAgain, same⟩ := exists_searchless_run runs reads
    obtain ⟨lastPart, runsPart, alike, unchanged⟩ := runs_before_unreadable runsAgain
      fun e member => by simpa using (List.mem_filter.mp member).2
    rw [← bytes] at runsPart unchanged
    obtain ⟨executedPart, outcomePart, bytesPart, statePart, hostPart⟩ := run_of_runs runsPart
    refine ⟨⟨_, outcomePart⟩, ?_, ?_, bytesPart.trans unchanged, ?_⟩
    · rw [hostPart, alike.host, ← same.machine.host, ← host]
    · rw [statePart, state]
      simp only [Dispatch.closingState, alike.state, ← same.machine.state, settled_finishPass]
    · rw [executedPart, executed]
  · intro m calls
    rw [m.count_afterCalls calls, UInt32.toNat_add, UInt32.toNat_ofNat', Nat.add_mod_mod]
  · intro m config passes code r
    refine ⟨fun summaries completed => runPasses_of_ok completed, ?_⟩
    intro error failed
    obtain ⟨summaries, made, fewer, before, failing, bytes, machine, counted⟩ :=
      runPasses_of_error failed
    exact ⟨summaries, made, fewer, before, failing, bytes, machine, machine ▸ counted⟩

/-- A search, a block that is skipped and a line that cannot be read; then passes over a timer block
without an end, of which the second fails, and a dry pass with which the counter comes round to zero. -/
theorem fails_without_effect_wrapping :
    let m : Machine Memory :=
      { host := ({} : Memory).load 3 [0xAB, 0xCD], state := { count := 0xFFFFFFFE } }
    let code := (Instruction.search [0xAB, 0xCD] 0 0 1).encode ++
      (Instruction.write ⟨.relative, 1⟩ .byte 7).encode ++
      (Instruction.test .equal ⟨.absolute, 16⟩ .word 1 0).encode ++ List.replicate 8 0x77 ++
      terminatorLine.toList ++ List.replicate 8 0x77
    let timed := (Instruction.timer 2).encode ++ (Instruction.setPointer 5).encode
    let calls := [Call.pass {} code, .passes {} 5 timed, .pass { live := false } []]
    (m.run {} code).outcome = .error (.decode 56 (.unknownOpcode 0x77)) ∧
      (∃ summary, (m.run {} ((m.run {} code).code.take 56)).outcome = .ok summary) ∧
      (m.run {} ((m.run {} code).code.take 56)).machine.host = (m.run {} code).machine.host ∧
      (m.runPasses {} 1 timed).outcome = .ok #[⟨2, 0, 16, 0xFFFFFFFF⟩] ∧
      (m.runPasses {} 1 timed).machine.state.count = 0xFFFFFFFE + 1 ∧
      (m.runPasses {} 5 timed).outcome = .error (.unterminatedBlock 0 .resetTimer) ∧
      (∃ summaries : List Summary, summaries.length < 5 ∧
        (m.runPasses {} summaries.length timed).outcome = .ok summaries.toArray) ∧
      (m.callsOutcomes calls).countP (·.isOk) = 2 ∧ (m.afterCalls calls).state.count.toNat = 0 := by
  intro m code timed calls
  obtain ⟨cut, counts, several⟩ := fails_without_effect (H := Memory)
  have failed : (m.run {} code).outcome = .error (.decode 56 (.unknownOpcode 0x77)) := by
    decide +kernel
  have first : (m.run {} timed).outcome = .ok ⟨2, 0, 16, 0xFFFFFFFF⟩ := by decide +kernel
  have second : ((m.run {} timed).machine.run {} (m.run {} timed).code).outcome =
      .error (.unterminatedBlock 0 .resetTimer) := by decide +kernel
  have one : (m.runPasses {} 1 timed).outcome = .ok #[⟨2, 0, 16, 0xFFFFFFFF⟩] :=
    congrArg PassesResult.outcome (Completes.pass first .none).runPasses_eq
  have five : (m.runPasses {} 5 timed).outcome = .error (.unterminatedBlock 0 .resetTimer) := by
    simp only [runPasses, runPassesFrom, first, second]
  have completed : (m.callsOutcomes calls).countP (·.isOk) = 2 := by decide +kernel
  have counted : (m.afterCalls calls).state.count.toNat = 0 := by
    rw [counts m calls, completed]
    decide
  obtain ⟨completes, host, _⟩ := cut m {} code _ _ failed (.inl inferInstance)
  obtain ⟨_, _, countOne, _⟩ := (several m {} 1 timed).1 _ one
  obtain ⟨summaries, _, fewer, before, _⟩ := (several m {} 5 timed).2 _ five
  exact ⟨failed, completes, host, one, countOne, five, ⟨summaries, fewer, before⟩, completed, counted⟩

end Machine

end LivePatch
