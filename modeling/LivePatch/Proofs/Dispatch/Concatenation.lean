import LivePatch.Proofs.Dispatch.Parallel
import LivePatch.Proofs.Dispatch.Transition
import LivePatch.Proofs.Host.Constant

namespace LivePatch

/-- The same error, `n` bytes further on. -/
def PassError.behind (n : Nat) : PassError → PassError
  | decode position cause => decode (n + position) cause
  | unterminatedBlock position blockEnd => unterminatedBlock (n + position) blockEnd
  | negativeLength position length => negativeLength (n + position) length
  | misalignedLength position remaining => misalignedLength (n + position) remaining

def Execution.behind (n : Nat) (e : Execution) : Execution :=
  { e with position := n + e.position }

theorem Execution.behind_zero : Execution.behind 0 = id := by
  funext e
  simp [Execution.behind]

/-- A tape that is the other one with `front` before it and `tail` behind it. -/
structure Tape.Framed (front tail : Bytes) (t whole : Tape) : Prop where
  passed : whole.passed.toList = front ++ t.passed.toList
  rest : whole.rest = t.rest ++ tail

namespace Tape.Framed

variable {front tail : Bytes} {t whole : Tape}

theorem bytes_eq (framed : t.Framed front tail whole) : whole.bytes = front ++ t.bytes ++ tail := by
  simp only [Tape.bytes, framed.passed, framed.rest, List.append_assoc]

theorem position_eq (framed : t.Framed front tail whole) :
    whole.position = front.length + t.position := by
  have length := congrArg List.length framed.passed
  rwa [List.length_append, Array.length_toList, Array.length_toList] at length

theorem advance (framed : t.Framed front tail whole) {n : Nat} (within : n ≤ t.rest.length) :
    (t.advance n).Framed front tail (whole.advance n) := by
  constructor
  · rw [toList_passed_advance, toList_passed_advance, framed.passed, framed.rest,
      List.take_append_of_le_length within, List.append_assoc]
  · rw [rest_advance, rest_advance, framed.rest, List.drop_append_of_le_length within]

theorem replace (framed : t.Framed front tail whole) {consumed : Nat} (address : UInt32)
    (line : 8 ≤ consumed) (within : consumed ≤ t.rest.length) :
    (t.replace consumed address).Framed front tail (whole.replace consumed address) := by
  have inside : consumed ≤ whole.rest.length := by
    rw [framed.rest, List.length_append]
    omega
  constructor
  · exact framed.passed
  · rw [rest_replace address line inside, rest_replace address line within, framed.rest,
      List.drop_append_of_le_length within, List.append_assoc]

end Tape.Framed

variable {H : Type}

/-- A pass at the same point of a longer stream, with so many instructions executed and blocks skipped
before. -/
structure Dispatch.Framed (front tail : Bytes) (executed skips : Nat) (d whole : Dispatch H) : Prop where
  tape : d.tape.Framed front tail whole.tape
  machine : d.machine.Alike Eq whole.machine
  instructions : whole.instructions = executed + d.instructions
  skipped : whole.skipped = skips + d.skipped

/-- A pass that has done what `d` has, where `d` is at the end of its stream and `tail` is still to
come. -/
structure Dispatch.GoesOn (d : Dispatch H) (tail : Bytes) (whole : Dispatch H) : Prop where
  passed : whole.tape.passed.toList = d.tape.bytes
  rest : whole.tape.rest = tail
  machine : d.machine.Alike Eq whole.machine
  instructions : whole.instructions = d.instructions
  skipped : whole.skipped = d.skipped

namespace Dispatch

theorem Framed.goesOn {tail : Bytes} {d whole : Dispatch H} (framed : d.Framed [] tail 0 0 whole)
    (empty : d.tape.rest = []) : d.GoesOn tail whole := by
  constructor
  · rw [framed.tape.passed, Tape.bytes, empty, List.nil_append, List.append_nil]
  · rw [framed.tape.rest, empty, List.nil_append]
  · exact framed.machine
  · rw [framed.instructions, Nat.zero_add]
  · rw [framed.skipped, Nat.zero_add]

theorem GoesOn.framed {tail : Bytes} {d whole : Dispatch H} (goesOn : d.GoesOn tail whole)
    {m : Machine H} (alike : m.Alike Eq d.machine) :
    Framed d.tape.bytes [] d.instructions d.skipped ⟨.ofBytes tail, m, 0, 0⟩ whole := by
  refine ⟨⟨?_, ?_⟩, ⟨?_, ?_⟩, goesOn.instructions, goesOn.skipped⟩
  · rw [goesOn.passed]
    exact (List.append_nil _).symm
  · rw [goesOn.rest]
    exact (List.append_nil _).symm
  · exact alike.state.trans goesOn.machine.state
  · exact alike.host.trans goesOn.machine.host

variable [Host H] {trace : Bool} {front tail : Bytes} {n k : Nat}

theorem Framed.executes {d whole : Dispatch H} {e : Execution} (framed : d.Framed front tail n k whole)
    (lines : tail.length % 8 = 0) (executed : d.Executes trace e) :
    whole.Executes trace (e.behind front.length) := by
  have performed := perform_twin framed.machine (.eq H) trace trace e.instruction
  obtain ⟨aligned, decoded, position, flow⟩ := executed
  constructor
  · rw [framed.tape.rest, List.length_append]
    omega
  · rw [framed.tape.rest]
    exact decode_append decoded tail
  · rw [framed.tape.position_eq, ← position]
    rfl
  · exact performed.1.symm.trans flow

/-- What is behind the stretch has no part in a move within it. -/
theorem Framed.move {d next whole : Dispatch H} {e : Execution} (framed : d.Framed front tail n k whole)
    (lines : tail.length % 8 = 0) (moved : d.Moves trace e next) :
    ∃ nextWhole, whole.Moves trace (e.behind front.length) nextWhole ∧
      next.Framed front tail n k nextWhole := by
  have executes := framed.executes lines moved.executed
  have performed := (perform_twin framed.machine (.eq H) trace trace e.instruction).2
  have counted : whole.instructions + 1 = n + (d.instructions + 1) := congrArg (· + 1) framed.instructions
  obtain ⟨line, _, within⟩ := moved.executed.consumed_bounds
  have onward := framed.tape.advance within
  cases moved with
  | onward executed flow =>
    exact ⟨_, .onward executes flow, onward, performed, counted, framed.skipped⟩
  | @skip blockEnd offset executed flow found =>
    -- A first occurrence within the stretch is the first one in the longer stream too.
    have bound := Stream.find?_bound found
    have further : Stream.find? blockEnd.line.toList (whole.tape.rest.drop e.consumed) = some offset := by
      rw [framed.tape.rest, List.drop_append_of_le_length within]
      exact Stream.find?_append found tail
    refine ⟨_, .skip executes flow further, ?_, performed.report _ _, counted, ?_⟩
    · exact onward.advance (by rw [Tape.rest_advance]; omega)
    · exact congrArg (· + 1) framed.skipped
  | @replace address executed flow =>
    exact ⟨_, .replace executes flow, framed.tape.replace address line within, performed.report _ _,
      counted, framed.skipped⟩

theorem Reaches.framed {start wholeStart d : Dispatch H} {es : List Execution}
    (reach : Reaches trace start es d) (framed : start.Framed front tail n k wholeStart)
    (lines : tail.length % 8 = 0) :
    ∃ whole, Reaches trace wholeStart (es.map (·.behind front.length)) whole ∧
      d.Framed front tail n k whole := by
  induction reach with
  | start => exact ⟨wholeStart, .start, framed⟩
  | move _ executed step ih =>
    obtain ⟨whole, reached, inside⟩ := ih
    obtain ⟨nextWhole, moves, further⟩ := inside.move lines (moves_iff.mpr ⟨executed, step⟩)
    refine ⟨nextWhole, ?_, further⟩
    rw [List.map_append]
    exact reached.move moves.executed.execution?_eq moves.step_eq

/-- A pass with nothing behind the stretch stops where the stretch is stopped in. -/
theorem Framed.stop {d last whole : Dispatch H} {error : Option PassError} {es : List Execution}
    (framed : d.Framed front [] n k whole) (stopped : d.Stops trace error es last) :
    ∃ lastWhole, whole.Stops trace (error.map (·.behind front.length)) (es.map (·.behind front.length))
      lastWhole ∧ last.Framed front [] n k lastWhole := by
  have rest := framed.tape.rest
  rw [List.append_nil] at rest
  have position := framed.tape.position_eq
  cases stopped with
  | ended empty => exact ⟨whole, .ended (rest.trans empty), framed⟩
  | misaligned broken =>
    simp only [Option.map_some, PassError.behind, ← position]
    rw [← rest] at broken ⊢
    exact ⟨whole, .misaligned broken, framed⟩
  | undecodable aligned nonempty decoded =>
    simp only [Option.map_some, PassError.behind, ← position]
    rw [← rest] at aligned nonempty decoded
    exact ⟨whole, .undecodable aligned nonempty decoded, framed⟩
  | @unterminated e blockEnd executed flow missing =>
    have executes := framed.executes rfl executed
    have performed := (perform_twin framed.machine (.eq H) trace trace e.instruction).2
    have within := executed.consumed_bounds.2.2
    simp only [Option.map_some, PassError.behind, ← position]
    rw [← rest] at missing
    exact ⟨_, .unterminated executes flow missing, framed.tape.advance within, performed,
      congrArg (· + 1) framed.instructions, framed.skipped⟩

theorem Runs.framed {d last : Dispatch H} {error : Option PassError} {es : List Execution}
    (runs : Runs trace d es error last) : ∀ whole, d.Framed front [] n k whole →
      ∃ lastWhole, Runs trace whole (es.map (·.behind front.length))
        (error.map (·.behind front.length)) lastWhole ∧ last.Framed front [] n k lastWhole := by
  induction runs with
  | stop stopped =>
    intro whole framed
    obtain ⟨lastWhole, stops, ended⟩ := framed.stop stopped
    exact ⟨lastWhole, .stop stops, ended⟩
  | move moved _ ih =>
    intro whole framed
    obtain ⟨nextWhole, moves, further⟩ := framed.move rfl moved
    obtain ⟨lastWhole, runs, ended⟩ := ih nextWhole further
    exact ⟨lastWhole, .move moves runs, ended⟩

theorem Reaches.runs {start d last : Dispatch H} {es fs : List Execution} {error : Option PassError}
    (reach : Reaches trace start es d) (runs : Runs trace d fs error last) :
    Runs trace start (es ++ fs) error last := by
  induction reach generalizing fs with
  | start => exact runs
  | move _ executed step ih =>
    have later := ih (.move (moves_iff.mpr ⟨executed, step⟩) runs)
    rwa [List.append_assoc, List.singleton_append]

/-- A loop that ends without an error has come to the end of its stream. -/
theorem reaches_end {d last : Dispatch H} (ended : d.run trace = (none, last)) :
    Reaches trace d (d.executions trace) last ∧ last.tape.rest = [] := by
  obtain ⟨before, final, stopping, reach, stopped, all⟩ := run_reaches_stop trace d
  rw [ended] at stopped
  cases stopped with
  | ended empty =>
    rw [List.append_nil] at all
    exact ⟨all ▸ reach, empty⟩

theorem Framed.reaches_goesOn {d last whole : Dispatch H} (framed : d.Framed [] tail 0 0 whole)
    (lines : tail.length % 8 = 0) (ended : d.run trace = (none, last)) :
    ∃ middle, Reaches trace whole (d.executions trace) middle ∧ last.GoesOn tail middle := by
  obtain ⟨reach, empty⟩ := reaches_end ended
  obtain ⟨middle, reached, inside⟩ := reach.framed framed lines
  rw [List.length_nil, Execution.behind_zero, List.map_id] at reached
  exact ⟨middle, reached, inside.goesOn empty⟩

theorem Runs.gate_eq {G : Type} [Host G] {d last : Dispatch (Gate G)} {config : Config}
    {error : Option PassError} {es : List Execution} (runs : Runs trace d es error last)
    (settings : ∃ h, d.machine.host = .ofConfig config h) :
    last.machine.host = .ofConfig config last.machine.host.host := by
  have start : d.Paired (Gate.SetAs config) d := ⟨rfl, ⟨rfl, rfl, settings⟩, rfl, rfl⟩
  obtain ⟨_, _, paired⟩ := runs.paired (Gate.bisimulation_setAs config) trace d start
  obtain ⟨h, set⟩ := paired.machine.host.settings
  rw [set]
  rfl

end Dispatch

namespace Machine

variable [Host H]

/-- What the loop of a run starts with, in whatever state the machine is. -/
def entering (m : Machine H) (config : Config) (code : Bytes) : Dispatch (Gate H) where
  tape := .ofBytes code
  machine := m.gated config

/-- The loop on a stream that it comes to the end of, with whole lines behind: it first does the same,
and then goes on as from the state and the host that it has come to, over what is behind alone. -/
theorem run_entering_append (m : Machine H) (config : Config) {first second : Bytes}
    {d : Dispatch (Gate H)} (lines : second.length % 8 = 0)
    (ended : (m.entering config first).run config.trace = (none, d)) :
    (∃ middle, Dispatch.Reaches config.trace (m.entering config (first ++ second))
      ((m.entering config first).executions config.trace) middle ∧ d.GoesOn second middle) ∧
    ∀ next : Machine H, next.state = d.machine.state → next.host = d.machine.host.host →
      let whole := (m.entering config (first ++ second)).run config.trace
      let later := (next.entering config second).run config.trace
      whole.1 = later.1.map (·.behind d.tape.bytes.length) ∧
      whole.2.tape.bytes = d.tape.bytes ++ later.2.tape.bytes ∧
      whole.2.machine.state = later.2.machine.state ∧ whole.2.machine.host = later.2.machine.host ∧
      whole.2.instructions = d.instructions + later.2.instructions ∧
      whole.2.skipped = d.skipped + later.2.skipped ∧
      (m.entering config (first ++ second)).executions config.trace =
        (m.entering config first).executions config.trace ++
          ((next.entering config second).executions config.trace).map (·.behind d.tape.bytes.length) := by
  have start : (m.entering config first).Framed [] second 0 0 (m.entering config (first ++ second)) :=
    ⟨⟨rfl, rfl⟩, ⟨rfl, rfl⟩, rfl, rfl⟩
  obtain ⟨middle, reached, goesOn⟩ := start.reaches_goesOn lines ended
  refine ⟨⟨middle, reached, goesOn⟩, ?_⟩
  intro next state host whole later
  have before := (m.entering config first).runs_run config.trace
  rw [ended] at before
  -- The gate has to be as it was set, since `next` enters through a new one.
  have settings : d.machine.host = .ofConfig config d.machine.host.host := before.gate_eq ⟨m.host, rfl⟩
  have alike : (next.gated config).Alike Eq d.machine := by
    refine ⟨state, ?_⟩
    rw [settings, ← host]
    rfl
  obtain ⟨last, runs, finished⟩ :=
    ((next.entering config second).runs_run config.trace).framed middle (goesOn.framed alike)
  have all := reached.runs runs
  have ends : whole = (later.1.map (·.behind d.tape.bytes.length), last) := all.run_eq
  rw [ends]
  refine ⟨rfl, ?_, finished.machine.state.symm, finished.machine.host.symm, finished.instructions,
    finished.skipped, all.executions_eq⟩
  rw [finished.tape.bytes_eq, List.append_nil]

/-- A search, a block that is skipped with another closing line further on, and a line behind them that
cannot be read. The search has made the first stream a line shorter. -/
theorem run_entering_append_unreadable :
    let m : Machine Memory := { host := {} }
    let first := (Instruction.search [1, 2, 3] 0 0 0).encode ++
      (Instruction.test .equal ⟨.absolute, 16⟩ .word 1 0).encode ++ terminatorLine.toList
    let second := terminatorLine.toList ++ List.replicate 8 0xFF
    let d := ((m.entering {} first).run false).2
    second.length % 8 = 0 ∧ (m.entering {} first).run false = (none, d) ∧
      ((m.entering {} (first ++ second)).run false).1 = some (.decode 40 (.unknownOpcode 0xFF)) ∧
      ((m.entering {} (first ++ second)).run false).2.instructions = 4 + 1 ∧
      ((m.entering {} (first ++ second)).run false).2.skipped = 1 + 0 := by
  intro m first second d
  have lines : second.length % 8 = 0 := by decide
  have ended : (m.entering {} first).run false = (none, d) := Prod.ext (by decide +kernel) rfl
  have alone : ((d.machine.ungated.entering {} second).run false).1 =
      some (.decode 8 (.unknownOpcode 0xFF)) := by decide +kernel
  have length : d.tape.bytes.length = 32 := by decide +kernel
  have counts : d.instructions = 4 ∧ d.skipped = 1 := by decide +kernel
  have countsAlone : ((d.machine.ungated.entering {} second).run false).2.instructions = 1 ∧
      ((d.machine.ungated.entering {} second).run false).2.skipped = 0 := by decide +kernel
  obtain ⟨_, goesOn⟩ := m.run_entering_append {} lines ended
  obtain ⟨error, _, _, _, instructions, skipped, _⟩ := goesOn d.machine.ungated rfl rfl
  refine ⟨lines, ended, ?_, ?_, ?_⟩
  · rw [error, alone, length]
    rfl
  · rw [instructions, counts.1, countsAlone.1]
  · rw [skipped, counts.2, countsAlone.2]

end Machine

end LivePatch
