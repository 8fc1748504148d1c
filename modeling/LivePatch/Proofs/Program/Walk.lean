import LivePatch.Proofs.Program.Offset

namespace LivePatch

/-- A walk through a program: the index of the instruction that comes next. -/
structure Walk (H : Type) where
  index : Nat
  machine : Machine H
  instructions : Nat := 0
  skipped : Nat := 0

inductive Walk.Step (H : Type) where
  | done (w : Walk H)
  | failed (error : PassError) (w : Walk H)
  | next (w : Walk H)

namespace Walk

open Program

variable {H : Type}

/-- The least index from `start` on with the instruction that closes the block. -/
def closing? (p : List Instruction) (start : Nat) (blockEnd : BlockEnd) : Option Nat :=
  ((p.drop start).findIdx? (· = blockEnd.instruction)).map (start + ·)

/-- Goes on after the instruction at the index. Programs walked here have no instruction that
replaces itself. -/
def follow (p : List Instruction) (w : Walk H) : Flow → Step H
  | .next | .replace _ => .next { w with index := w.index + 1 }
  | .skipTo blockEnd =>
    match closing? p (w.index + 1) blockEnd with
    | none => .failed (.unterminatedBlock (offset p w.index) blockEnd) w
    | some index => .next { w with index, skipped := w.skipped + 1 }

theorem index_lt_of_follow {p : List Instruction} {w next : Walk H} {flow : Flow}
    (followed : w.follow p flow = .next next) : w.index < next.index := by
  cases flow with
  | next | replace address =>
    cases followed
    exact Nat.lt_succ_self _
  | skipTo blockEnd =>
    simp only [follow] at followed
    split at followed
    · cases followed
    · rename_i closes
      cases followed
      obtain ⟨k, _, rfl⟩ := Option.map_eq_some_iff.mp closes
      show w.index < w.index + 1 + k
      omega

variable [Host H]

/-- The walk with an instruction executed, before it goes on. -/
def executed (w : Walk H) (i : Instruction) : Walk H :=
  { w with machine := (w.machine.execute i).2, instructions := w.instructions + 1 }

def step (p : List Instruction) (w : Walk H) : Step H :=
  match p[w.index]? with
  | none => .done w
  | some i => (w.executed i).follow p (w.machine.execute i).1

theorem index_lt_of_step {p : List Instruction} {w next : Walk H} (step : w.step p = .next next) :
    w.index < p.length ∧ w.index < next.index := by
  unfold Walk.step at step
  split at step
  · cases step
  · rename_i i there
    have onward := index_lt_of_follow (w := w.executed i) step
    exact ⟨(List.getElem?_eq_some_iff.mp there).1, onward⟩

def run (p : List Instruction) (w : Walk H) : Option PassError × Walk H :=
  match _ : w.step p with
  | .done w => (none, w)
  | .failed error w => (some error, w)
  | .next w => w.run p
termination_by p.length - w.index
decreasing_by
  have := index_lt_of_step ‹_›
  omega

end Walk

/-- What walking a program leaves. -/
structure WalkResult (H : Type) where
  outcome : Except PassError Summary
  state : State
  host : H

/-- A walk behind the gate before its first step. -/
def Machine.setOut {H : Type} (m : Machine H) (config : Config) : Walk (Gate H) where
  index := 0
  machine := { m.gated config with state := m.state.beginPass }

/-- One pass through a program behind the gate, live or dry. -/
def Machine.walk {H : Type} [Host H] (m : Machine H) (config : Config) (p : List Instruction) :
    WalkResult H :=
  match (m.setOut config).run p with
  | (some error, w) => ⟨.error error, m.settled config w.machine.state, w.machine.host.host⟩
  | (none, w) =>
    let state := w.machine.state.finishPass
    ⟨.ok ⟨w.instructions, w.skipped, (Program.stream p).length, state.count⟩,
      m.settled config state, w.machine.host.host⟩

namespace Program

/-- Programs that can be walked in place of their streams. -/
structure Walkable (p : List Instruction) : Prop where
  keeps : ∀ i ∈ p, i.misfit? = none
  searchless : ∀ i ∈ p, i.isSearch = false
  only : ClosesOnlyBlocks p

instance (p : List Instruction) : Decidable (Walkable p) :=
  decidable_of_iff ((∀ i ∈ p, i.misfit? = none) ∧ (∀ i ∈ p, i.isSearch = false) ∧ ClosesOnlyBlocks p)
    ⟨fun ⟨keeps, searchless, only⟩ => ⟨keeps, searchless, only⟩,
      fun ⟨keeps, searchless, only⟩ => ⟨keeps, searchless, only⟩⟩

theorem Walkable.getElem? {p : List Instruction} (walkable : Walkable p) {index : Nat}
    {i : Instruction} (there : p[index]? = some i) : i.misfit? = none ∧ i.isSearch = false := by
  have member := List.mem_of_getElem? there
  exact ⟨walkable.keeps i member, walkable.searchless i member⟩

theorem Walkable.drop {p : List Instruction} (walkable : Walkable p) (index : Nat) :
    Walkable (p.drop index) where
  keeps i member := walkable.keeps i (List.mem_of_mem_drop member)
  searchless i member := walkable.searchless i (List.mem_of_mem_drop member)
  only := walkable.only.drop walkable.keeps index

end Program

open Program

/-- The tape stands before the instruction with this index. -/
structure Tape.At (t : Tape) (p : List Instruction) (index : Nat) : Prop where
  passed : t.passed.toList = stream (p.take index)
  rest : t.rest = stream (p.drop index)

theorem Tape.At.bytes {t : Tape} {p : List Instruction} {index : Nat} (place : t.At p index) :
    t.bytes = stream p := by
  rw [Tape.bytes, place.passed, place.rest, stream_take_append_drop]

theorem Tape.At.position {t : Tape} {p : List Instruction} {index : Nat} (place : t.At p index) :
    t.position = offset p index := by
  rw [Tape.position, ← Array.length_toList, place.passed, offset]

theorem Tape.At.rest_eq_nil {t : Tape} {p : List Instruction} {index : Nat} (place : t.At p index)
    (ended : p[index]? = none) : t.rest = [] := by
  rw [place.rest, List.drop_eq_nil_of_le (List.getElem?_eq_none_iff.mp ended)]
  rfl

theorem Tape.At.advance {t : Tape} {p : List Instruction} {index : Nat} (place : t.At p index)
    (j : Nat) : (t.advance (offset (p.drop index) j)).At p (index + j) := by
  constructor
  · rw [Tape.toList_passed_advance, place.passed, place.rest, take_offset, ← stream_append,
      ← List.take_add]
  · rw [Tape.rest_advance, place.rest, drop_offset, List.drop_drop]

/-- Where the tape stands before an instruction, that instruction is executed. -/
theorem Dispatch.executes_at {H : Type} [Host H] {p : List Instruction} {index : Nat}
    {d : Dispatch H} {i : Instruction} (trace : Bool) (keeps : ∀ i ∈ p, i.misfit? = none)
    (place : d.tape.At p index) (there : p[index]? = some i) :
    d.Executes trace
      ⟨d.tape.position, i.normalized, i.encodedLength, (d.perform trace i.normalized).1⟩ := by
  refine ⟨?_, ?_, rfl, rfl⟩
  · rw [place.rest]
    exact length_stream_mod fun j member => keeps j (List.mem_of_mem_drop member)
  · rw [place.rest, drop_eq_cons there, stream, List.flatMap_cons]
    exact Instruction.decode_encode_append (keeps i (List.mem_of_getElem? there)) _

theorem Instruction.isSearch_normalized (i : Instruction) : i.normalized.isSearch = i.isSearch := by
  cases i <;> rfl

/-- Arguments that a call does not supply have no part in it. -/
theorem Machine.execute_normalized {H : Type} [Host H] (m : Machine H) (i : Instruction) :
    m.execute i.normalized = m.execute i := by
  have supplied := i.callArguments_normalized
  cases i with
  | call address low high arguments count =>
    simp only [Instruction.normalized, Machine.execute] at supplied ⊢
    rw [supplied]
  | _ => rfl

/-- What is executed there, on a machine that is the same up to the log, and where the tape stands after
it. -/
theorem Dispatch.executes_alike_at {H : Type} [Host H] {p : List Instruction} {index : Nat}
    {d : Dispatch H} {m : Machine H} {i : Instruction} (trace : Bool)
    (keeps : ∀ i ∈ p, i.misfit? = none) (place : d.tape.At p index) (alike : d.machine.Alike Eq m)
    (there : p[index]? = some i) :
    d.Executes trace ⟨d.tape.position, i.normalized, i.encodedLength, (m.execute i).1⟩ ∧
      (d.tape.advance i.encodedLength).At p (index + 1) ∧
      (d.perform trace i.normalized).2.machine.Alike Eq (m.execute i).2 := by
  have performed := perform_alike alike (Bisimulation.eq H) trace i.normalized
  rw [m.execute_normalized] at performed
  have executes := executes_at trace keeps place there
  rw [performed.1] at executes
  have beyond := place.advance 1
  rw [offset_drop_one there (keeps i (List.mem_of_getElem? there))] at beyond
  exact ⟨executes, beyond, performed.2⟩

namespace Walk

variable {H : Type} [Host H]

/-- A walk and a pass with the same machine, up to the log, and the same counts. -/
structure Agrees (w : Walk H) (d : Dispatch H) : Prop where
  machine : d.machine.Alike Eq w.machine
  instructions : d.instructions = w.instructions
  skipped : d.skipped = w.skipped

/-- How the pass goes when the walk takes a step. -/
def Simulated (trace : Bool) (p : List Instruction) (d : Dispatch H) : Step H → Prop
  | .done w => d.Stops trace none [] d ∧ w.Agrees d
  | .failed error w => ∃ e last, d.Stops trace (some error) [e] last ∧ w.Agrees last
  | .next w => ∃ e next, d.Moves trace e next ∧ next.tape.At p w.index ∧ w.Agrees next

theorem executes_at {p : List Instruction} {w : Walk H} {d : Dispatch H} {i : Instruction}
    (trace : Bool) (walkable : Walkable p) (place : d.tape.At p w.index) (agrees : w.Agrees d)
    (there : p[w.index]? = some i) :
    d.Executes trace ⟨d.tape.position, i.normalized, i.encodedLength, (w.machine.execute i).1⟩ ∧
      (d.tape.advance i.encodedLength).At p (w.index + 1) ∧
      (w.executed i).Agrees (d.perform trace i.normalized).2 := by
  obtain ⟨executes, beyond, performed⟩ :=
    Dispatch.executes_alike_at trace walkable.keeps place agrees.machine there
  exact ⟨executes, beyond, performed, congrArg (· + 1) agrees.instructions, agrees.skipped⟩

/-- A skip through the program is a skip through the stream. -/
theorem simulated_skip {trace : Bool} {p : List Instruction} {w : Walk H} {d : Dispatch H}
    {e : Execution} {blockEnd : BlockEnd} (walkable : Walkable p) (place : d.tape.At p w.index)
    (beyond : (d.tape.advance e.consumed).At p (w.index + 1)) (executes : d.Executes trace e)
    (flow : e.flow = .skipTo blockEnd) (after : w.Agrees (d.perform trace e.instruction).2) :
    Simulated trace p d (w.follow p (.skipTo blockEnd)) := by
  have found := find?_stream (walkable.drop (w.index + 1)).only blockEnd
  rw [← beyond.rest, Tape.rest_advance] at found
  simp only [follow, closing?]
  cases first : (p.drop (w.index + 1)).findIdx? (· = blockEnd.instruction) with
  | none =>
    rw [first, Option.map_none] at found
    have stopped := Dispatch.Stops.unterminated executes flow found
    rw [place.position] at stopped
    exact ⟨e, _, stopped, after.machine, after.instructions, after.skipped⟩
  | some j =>
    rw [first, Option.map_some] at found
    refine ⟨e, _, .skip executes flow found, beyond.advance j, ?_⟩
    exact ⟨⟨after.machine.state, after.machine.host⟩, after.instructions,
      congrArg (· + 1) after.skipped⟩

theorem simulated_step {p : List Instruction} {w : Walk H} {d : Dispatch H} (trace : Bool)
    (walkable : Walkable p) (place : d.tape.At p w.index) (agrees : w.Agrees d) :
    Simulated trace p d (w.step p) := by
  unfold step
  split
  · rename_i ended
    exact ⟨.ended (place.rest_eq_nil ended), agrees⟩
  · rename_i i there
    obtain ⟨executes, beyond, after⟩ := executes_at trace walkable place agrees there
    cases flow : (w.machine.execute i).1 with
    | next =>
      exact ⟨_, _, .onward executes flow, beyond, after.machine, after.instructions, after.skipped⟩
    | skipTo blockEnd =>
      exact simulated_skip (w := w.executed i) walkable place beyond executes flow after
    | replace address =>
      have search := executes.isSearch_iff.mpr ⟨address, flow⟩
      rw [i.isSearch_normalized, (walkable.getElem? there).2] at search
      cases search

/-- A pass over the stream goes as the walk through the program does. -/
theorem runs_of_run {p : List Instruction} {w : Walk H} {d : Dispatch H} (trace : Bool)
    (walkable : Walkable p) (place : d.tape.At p w.index) (agrees : w.Agrees d) :
    ∃ es last, Dispatch.Runs trace d es (w.run p).1 last ∧ (w.run p).2.Agrees last ∧
      last.tape.bytes = stream p := by
  have simulated := simulated_step trace walkable place agrees
  rw [run]
  split
  · rename_i ended step
    rw [step] at simulated
    exact ⟨[], d, .stop simulated.1, simulated.2, place.bytes⟩
  · rename_i error ended step
    rw [step] at simulated
    obtain ⟨e, last, stopped, agrees⟩ := simulated
    exact ⟨[e], last, .stop stopped, agrees, stopped.stream.trans place.bytes⟩
  · rename_i next step
    rw [step] at simulated
    obtain ⟨e, further, moved, place, agrees⟩ := simulated
    have onward := index_lt_of_step step
    obtain ⟨es, last, runs, agrees, bytes⟩ := runs_of_run trace walkable place agrees
    exact ⟨e :: es, last, .move moved runs, agrees, bytes⟩
termination_by p.length - w.index

theorem unterminated_of_step {p : List Instruction} {w last : Walk H} {error : PassError}
    (step : w.step p = .failed error last) :
    ∃ index blockEnd, index < p.length ∧ error = .unterminatedBlock (offset p index) blockEnd := by
  unfold Walk.step at step
  split at step
  · cases step
  · rename_i i there
    have inside := (List.getElem?_eq_some_iff.mp there).1
    cases flow : (w.machine.execute i).1 with
    | next | replace address =>
      rw [flow] at step
      cases step
    | skipTo blockEnd =>
      simp only [flow, follow] at step
      split at step
      · cases step
        exact ⟨w.index, blockEnd, inside, rfl⟩
      · cases step

/-- A walk can only fail for want of a closing instruction. -/
theorem unterminated_of_run {p : List Instruction} {w : Walk H} {error : PassError}
    (failed : (w.run p).1 = some error) :
    ∃ index blockEnd, index < p.length ∧ error = .unterminatedBlock (offset p index) blockEnd := by
  rw [run] at failed
  split at failed
  · cases failed
  · rename_i step
    cases failed
    exact unterminated_of_step step
  · rename_i next step
    have onward := index_lt_of_step step
    exact unterminated_of_run failed
termination_by p.length - w.index

end Walk

theorem assemble_eq_stream {p : List Instruction} (keeps : ∀ i ∈ p, i.misfit? = none) :
    assemble p = .ok (stream p) := by
  have none_breaks : firstMisfit? p = none := by
    rw [firstMisfit?, List.findSome?_eq_none_iff]
    rintro ⟨i, index⟩ member
    have inside := List.fst_mem_of_mem_zipIdx member
    simp [keeps i inside]
  rw [assemble, none_breaks]
  rfl

theorem assemble_eq_ok {p : List Instruction} {code : Bytes} (assembled : assemble p = .ok code) :
    (∀ i ∈ p, i.misfit? = none) ∧ code = stream p := by
  unfold assemble at assembled
  split at assembled
  · cases assembled
  · rename_i none_breaks
    cases assembled
    refine ⟨?_, rfl⟩
    intro i member
    obtain ⟨index, inside, rfl⟩ := List.getElem_of_mem member
    rw [firstMisfit?, List.findSome?_eq_none_iff] at none_breaks
    have kept := none_breaks (p[index], index) (List.mem_zipIdx_iff_getElem?.mpr (by simp))
    simpa using kept

theorem Machine.walk_of_run {H : Type} [Host H] {m : Machine H} {config : Config}
    {p : List Instruction} {error : Option PassError} {w : Walk (Gate H)} {last : Dispatch (Gate H)}
    (ended : (m.setOut config).run p = (error, w)) (agrees : w.Agrees last)
    (bytes : last.tape.bytes = stream p) :
    (m.walk config p).outcome = last.outcome error ∧
      (m.walk config p).state = m.settled config (last.closingState error) ∧
      (m.walk config p).host = last.machine.host.host := by
  obtain ⟨machine, instructions, skipped⟩ := agrees
  cases error with
  | some error =>
    simp only [walk, ended, Dispatch.outcome, Dispatch.closingState, machine.state, machine.host,
      and_self]
  | none =>
    simp only [walk, ended, Dispatch.outcome, Dispatch.closingState, machine.state, machine.host,
      bytes, instructions, skipped, and_self]

/-- A run over the stream of a program is a walk through the program. -/
theorem Machine.run_stream {H : Type} [Host H] (m : Machine H) (config : Config)
    {p : List Instruction} (walkable : Walkable p) :
    assemble p = .ok (stream p) ∧
      (m.run config (stream p)).outcome = (m.walk config p).outcome ∧
      (m.run config (stream p)).machine.state = (m.walk config p).state ∧
      (m.run config (stream p)).machine.host = (m.walk config p).host ∧
      (m.run config (stream p)).code = stream p ∧
      ∀ error, (m.run config (stream p)).outcome = .error error →
        ∃ index blockEnd, index < p.length ∧ error = .unterminatedBlock (offset p index) blockEnd := by
  have place : ((m.gated config).opening (stream p)).tape.At p 0 := ⟨rfl, rfl⟩
  have together : (m.setOut config).Agrees ((m.gated config).opening (stream p)) :=
    ⟨⟨rfl, rfl⟩, rfl, rfl⟩
  obtain ⟨es, last, runs, agrees, bytes⟩ := Walk.runs_of_run config.trace walkable place together
  obtain ⟨_, outcome, code, state, host⟩ := run_of_runs runs
  obtain ⟨outcomeWalked, stateWalked, hostWalked⟩ := walk_of_run (m := m) rfl agrees bytes
  refine ⟨assemble_eq_stream walkable.keeps, ?_, ?_, ?_, code.trans bytes, ?_⟩
  · rw [outcome, outcomeWalked]
  · rw [state, stateWalked]
  · rw [host, hostWalked]
  · intro error failed
    rw [outcome] at failed
    cases stopped : ((m.setOut config).run p).1 with
    | none =>
      rw [stopped] at failed
      cases failed
    | some other =>
      rw [stopped] at failed
      cases failed
      exact Walk.unterminated_of_run stopped

/-- A block that is skipped, with a call in it, and a timer block that has no end. -/
theorem Machine.run_stream_skips :
    let m : Machine Memory := { host := {}, state := { count := 1 } }
    let p := [Instruction.test .equal ⟨.absolute, 16⟩ .word 1 0,
      .call 0x80001000 3 4 #v[1, 2, 3, 9, 9, 9, 9, 9] 3, .terminator, .timer 2, .noOperation]
    Walkable p ∧ (m.walk {} p).outcome = .error (.unterminatedBlock 48 .resetTimer) ∧
      (m.run {} (stream p)).outcome = .error (.unterminatedBlock 48 .resetTimer) := by
  intro m p
  have walkable : Walkable p := by decide
  have walked : (m.walk {} p).outcome = .error (.unterminatedBlock 48 .resetTimer) := by decide +kernel
  exact ⟨walkable, walked, (m.run_stream {} walkable).2.1.trans walked⟩

end LivePatch
