import LivePatch.Proofs.Dispatch.Concatenation
import LivePatch.Proofs.Dispatch.DryRun
import LivePatch.Proofs.Dispatch.Linear
import LivePatch.Proofs.Dispatch.Passes

namespace LivePatch

open Program

variable {H : Type}

namespace Machine

variable {m : Machine H} {delay : UInt32}

theorem setTimer_of_open (opens : delay = 0 ∨ m.state.count % delay = 0) :
    m.setTimer delay = (.next, { m with state := { m.state with delay } }) := by
  have isOpen : State.timerClosed { m.state with delay } = false := by
    rcases opens with zero | divides
    · simp [State.timerClosed, zero]
    · simp [State.timerClosed, divides]
  simp only [setTimer, isOpen]
  rfl

theorem setTimer_of_closed (closed : ¬ (delay = 0 ∨ m.state.count % delay = 0)) :
    (m.setTimer delay).1 = .skipTo .resetTimer ∧
      (m.setTimer delay).2.Alike Eq { m with state := { m.state with delay } } := by
  have isClosed : State.timerClosed { m.state with delay } = true := by
    simpa [State.timerClosed, not_or] using closed
  simp only [setTimer, isClosed]
  exact ⟨rfl, rfl, rfl⟩

end Machine

/-- A pass over the stream of a program: where it stands, with which machine up to the log, and after
how many skips. -/
structure Dispatch.Stands (p : List Instruction) (index : Nat) (m : Machine H) (skips : Nat)
    (d : Dispatch H) : Prop where
  place : d.tape.At p index
  machine : d.machine.Alike Eq m
  skipped : d.skipped = skips

theorem Machine.stands_opening (m : Machine H) (p : List Instruction) :
    (m.opening (stream p)).Stands p 0 { m with state := m.state.beginPass } 0 :=
  ⟨⟨rfl, rfl⟩, ⟨rfl, rfl⟩, rfl⟩

variable [Host H]

/-- The machine after some instructions, whatever the flow says. -/
def Machine.executeAll (m : Machine H) (p : List Instruction) : Machine H :=
  p.foldl (fun m i => (m.execute i).2) m

namespace Dispatch.Stands

variable {p : List Instruction} {index skips : Nat} {m : Machine H} {d : Dispatch H} {i : Instruction}

theorem onward (stands : d.Stands p index m skips) (trace : Bool) (keeps : ∀ i ∈ p, i.misfit? = none)
    (there : p[index]? = some i) (flow : (m.execute i).1 = .next) :
    ∃ e next, d.Moves trace e next ∧ e.instruction = i.normalized ∧
      next.Stands p (index + 1) (m.execute i).2 skips := by
  obtain ⟨executes, beyond, after⟩ :=
    executes_alike_at trace keeps stands.place stands.machine there
  exact ⟨_, _, .onward executes flow, rfl, beyond, after, stands.skipped⟩

/-- A skip over `j` instructions, if the closing line stands first after these. -/
theorem skip (stands : d.Stands p index m skips) (trace : Bool) (keeps : ∀ i ∈ p, i.misfit? = none)
    (there : p[index]? = some i) {blockEnd : BlockEnd} (flow : (m.execute i).1 = .skipTo blockEnd)
    {j : Nat} (found : Stream.find? blockEnd.line.toList (stream (p.drop (index + 1))) =
      some (offset (p.drop (index + 1)) j)) :
    ∃ e next, d.Moves trace e next ∧ e.instruction = i.normalized ∧
      next.Stands p (index + 1 + j) (m.execute i).2 (skips + 1) := by
  obtain ⟨executes, beyond, after⟩ :=
    executes_alike_at trace keeps stands.place stands.machine there
  rw [← beyond.rest, Tape.rest_advance] at found
  refine ⟨_, _, .skip executes flow found, rfl, beyond.advance j, ⟨after.state, after.host⟩, ?_⟩
  exact congrArg (· + 1) stands.skipped

/-- Instructions that neither skip nor search are executed one after the other. -/
theorem straight (stands : d.Stands p index m skips) (trace : Bool)
    (keeps : ∀ i ∈ p, i.misfit? = none) {b : List Instruction} (there : b <+: p.drop index)
    (plain : ∀ i ∈ b, i.opensBlock = false) (searchless : ∀ i ∈ b, i.isSearch = false) (k : Nat)
    (within : k ≤ b.length) :
    ∃ es next, Reaches trace d es next ∧
      es.map (·.instruction) = (b.take k).map Instruction.normalized ∧
      next.Stands p (index + k) (m.executeAll (b.take k)) skips := by
  -- On the length of the part that has been executed: `Reaches` grows at its end.
  induction k with
  | zero => exact ⟨[], d, .start, rfl, stands⟩
  | succ k ih =>
    obtain ⟨es, next, reach, executed, further⟩ := ih (Nat.le_of_succ_le within)
    have member : b[k] ∈ b := List.getElem_mem within
    have here : p[index + k]? = some b[k] := by
      obtain ⟨rest, split⟩ := there
      rw [← List.getElem?_drop, ← split, List.getElem?_append_left within,
        List.getElem?_eq_getElem within]
    have flow := (m.executeAll (b.take k)).execute_eq_next (plain _ member) (searchless _ member)
    obtain ⟨e, after, moved, instruction, arrived⟩ := further.onward trace keeps here flow
    refine ⟨es ++ [e], after, reach.move moved.executed.execution?_eq moved.step_eq, ?_, ?_⟩
    · rw [List.take_succ_eq_append_getElem within, List.map_append, List.map_append, executed,
        List.map_singleton, List.map_singleton, instruction]
    · rw [List.take_succ_eq_append_getElem within, Machine.executeAll, List.foldl_append]
      exact arrived

end Dispatch.Stands

/-- A live run over the stream of a program, by where its pass ends. -/
theorem Machine.run_of_stands {m n : Machine H} {config : Config} (live : config.live = true)
    {p : List Instruction} {es : List Execution} {last : Dispatch H} {skips : Nat}
    (runs : Dispatch.Runs config.trace (m.opening (stream p)) es none last)
    (stands : last.Stands p p.length n skips) :
    let r := m.run config (stream p)
    m.executions config (stream p) = es ∧
      r.outcome = .ok ⟨es.length, skips, (stream p).length, m.state.count + 1⟩ ∧
      r.code = stream p ∧ r.machine.state = { n.state with count := m.state.count + 1 } ∧
      r.machine.host = n.host := by
  intro r
  obtain ⟨executed, outcome, bytes, state, host⟩ := m.run_of_live live config.trace (stream p)
  obtain ⟨passOutcome, passBytes, passState, passHost⟩ := pass_of_run runs.run_eq
  have counted : n.state.count = m.state.count :=
    (congrArg State.count stands.machine.state).symm.trans runs.count_eq
  have number : last.instructions = es.length := runs.instructions_eq.trans (Nat.zero_add _)
  refine ⟨executed.trans runs.executions_eq, ?_, ?_, ?_, ?_⟩
  · simp only [r, outcome, passOutcome, Dispatch.outcome, State.finishPass, stands.place.bytes,
      stands.skipped, stands.machine.state, counted, number]
  · simp only [r, bytes, passBytes, stands.place.bytes]
  · simp only [r, state, passState, Dispatch.closingState, State.finishPass, stands.machine.state,
      counted]
  · simp only [r, host, passHost, stands.machine.host]

namespace Program

/-- A block behind a timer, with the line that closes it. -/
def timed (delay : UInt32) (block : List Instruction) : List Instruction :=
  .timer delay :: (block ++ [.resetTimer])

/-- Blocks that can stand behind a timer: nothing in them skips or searches, and the closing line is
the first one in their stream. -/
structure TimedBlock (block : List Instruction) : Prop where
  keeps : ∀ i ∈ block, i.misfit? = none
  plain : ∀ i ∈ block, i.opensBlock = false
  searchless : ∀ i ∈ block, i.isSearch = false
  first : Stream.find? resetTimerLine.toList (stream block ++ resetTimerLine.toList) =
    some (stream block).length

instance (block : List Instruction) : Decidable (TimedBlock block) :=
  decidable_of_iff ((∀ i ∈ block, i.misfit? = none) ∧ (∀ i ∈ block, i.opensBlock = false) ∧
      (∀ i ∈ block, i.isSearch = false) ∧
      Stream.find? resetTimerLine.toList (stream block ++ resetTimerLine.toList) =
        some (stream block).length)
    ⟨fun ⟨keeps, plain, searchless, first⟩ => ⟨keeps, plain, searchless, first⟩,
      fun ⟨keeps, plain, searchless, first⟩ => ⟨keeps, plain, searchless, first⟩⟩

variable {block : List Instruction}

theorem TimedBlock.keeps_timed (isTimed : TimedBlock block) (delay : UInt32) :
    ∀ i ∈ timed delay block, i.misfit? = none := by
  intro i member
  simp only [timed, List.mem_cons, List.mem_append, List.not_mem_nil, or_false] at member
  rcases member with rfl | inside | rfl
  · rfl
  · exact isTimed.keeps i inside
  · rfl

theorem length_timed (delay : UInt32) (block : List Instruction) :
    (timed delay block).length = block.length + 2 := by
  simp [timed]

theorem getElem?_timed_length (delay : UInt32) (block : List Instruction) :
    (timed delay block)[block.length + 1]? = some .resetTimer := by
  simp [timed]

/-- A timer that is closed skips to the line that closes its block. -/
theorem TimedBlock.find?_timed (isTimed : TimedBlock block) (delay : UInt32) :
    Stream.find? BlockEnd.resetTimer.line.toList (stream ((timed delay block).drop 1)) =
      some (offset ((timed delay block).drop 1) block.length) := by
  have behind : (timed delay block).drop 1 = block ++ [.resetTimer] := rfl
  have bytes : stream [.resetTimer] = resetTimerLine.toList :=
    (List.flatMap_singleton ..).trans (encode_closing .resetTimer)
  rw [behind, offset, List.take_left, stream_append, bytes]
  exact isTimed.first

end Program

/-- The closing line resets the delay and ends the pass. -/
theorem Dispatch.Stands.reset {d : Dispatch H} {m : Machine H} {block : List Instruction} {delay : UInt32}
    {skips : Nat} (stands : d.Stands (timed delay block) (block.length + 1) m skips) (trace : Bool)
    (isTimed : TimedBlock block) :
    ∃ e last, Runs trace d [e] none last ∧ e.instruction = .resetTimer ∧
      last.Stands (timed delay block) (timed delay block).length
        { m with state := { m.state with delay := 0 } } skips := by
  obtain ⟨e, last, moved, instruction, ended⟩ := stands.onward trace (isTimed.keeps_timed delay)
    (getElem?_timed_length delay block) rfl
  have there : (timed delay block)[block.length + 1 + 1]? = none :=
    List.getElem?_eq_none (Nat.le_of_eq (length_timed delay block))
  refine ⟨e, last, .move moved (.stop (.ended (ended.place.rest_eq_nil there))), instruction, ?_⟩
  rw [length_timed]
  exact ended

namespace Machine

variable {m : Machine H} {config : Config} {delay : UInt32} {block : List Instruction}

/-- A pass on which the timer lets its block be executed. -/
theorem run_timed_of_open (live : config.live = true) (isTimed : TimedBlock block)
    (opens : delay = 0 ∨ m.state.count % delay = 0) :
    let code := stream (timed delay block)
    let entered := executeAll { m with state := { m.state.beginPass with delay } } block
    let r := m.run config code
    (m.executions config code).map (·.instruction) =
        .timer delay :: (block.map Instruction.normalized ++ [.resetTimer]) ∧
      r.outcome = .ok ⟨block.length + 2, 0, code.length, m.state.count + 1⟩ ∧ r.code = code ∧
      r.machine.state = { entered.state with delay := 0, count := m.state.count + 1 } ∧
      r.machine.host = entered.host := by
  intro code entered r
  have set := setTimer_of_open (m := { m with state := m.state.beginPass }) opens
  obtain ⟨e, d₁, moved, first, inside⟩ := (m.stands_opening (timed delay block)).onward config.trace
    (isTimed.keeps_timed delay) (i := .timer delay) rfl (congrArg Prod.fst set)
  simp only [execute, set] at inside
  obtain ⟨es, d₂, reach, executed, behind⟩ := inside.straight config.trace
    (isTimed.keeps_timed delay) (List.prefix_append block [.resetTimer]) isTimed.plain
    isTimed.searchless block.length (Nat.le_refl _)
  rw [List.take_length] at executed behind
  rw [Nat.zero_add, Nat.add_comm] at behind
  obtain ⟨f, last, ends, final, ended⟩ := behind.reset config.trace isTimed
  obtain ⟨all, outcome, bytes, state, host⟩ := run_of_stands live (.move moved (reach.runs ends)) ended
  have number : (e :: (es ++ [f])).length = block.length + 2 := by
    have count := congrArg List.length executed
    rw [List.length_map, List.length_map] at count
    rw [List.length_cons, List.length_append, List.length_singleton, count]
  rw [number] at outcome
  refine ⟨?_, outcome, bytes, state, host⟩
  rw [all, List.map_cons, List.map_append, executed, List.map_singleton, first, final]
  rfl

/-- A pass on which the timer skips its block. -/
theorem run_timed_of_closed (live : config.live = true) (isTimed : TimedBlock block)
    (closed : ¬ (delay = 0 ∨ m.state.count % delay = 0)) :
    let code := stream (timed delay block)
    let r := m.run config code
    (m.executions config code).map (·.instruction) = [.timer delay, .resetTimer] ∧
      r.outcome = .ok ⟨2, 1, code.length, m.state.count + 1⟩ ∧ r.code = code ∧
      r.machine.state = { m.state.beginPass with delay := 0, count := m.state.count + 1 } ∧
      r.machine.host = m.host := by
  intro code r
  obtain ⟨flow, set⟩ := setTimer_of_closed (m := { m with state := m.state.beginPass }) closed
  obtain ⟨e, d, moved, first, place, machine, skipped⟩ :=
    (m.stands_opening (timed delay block)).skip config.trace (isTimed.keeps_timed delay)
      (i := .timer delay) rfl flow (isTimed.find?_timed delay)
  rw [Nat.zero_add, Nat.add_comm] at place
  obtain ⟨f, last, ends, final, ended⟩ := Dispatch.Stands.reset
    ⟨place, ⟨machine.state.trans set.state, machine.host.trans set.host⟩, skipped⟩ config.trace isTimed
  obtain ⟨all, outcome, bytes, state, host⟩ := run_of_stands live (.move moved ends) ended
  refine ⟨?_, outcome, bytes, state, host⟩
  rw [all, List.map_cons, List.map_singleton, first, final]
  rfl

/-- The account of a pass over a timer block. -/
def timedSummary (delay : UInt32) (block : List Instruction) (count : UInt32) : Summary :=
  let length := (stream (timed delay block)).length
  if delay = 0 ∨ count % delay = 0 then ⟨block.length + 2, 0, length, count + 1⟩
  else ⟨2, 1, length, count + 1⟩

theorem run_timed_steady (live : config.live = true) (delay : UInt32) (isTimed : TimedBlock block)
    (m : Machine H) :
    (m.run config (stream (timed delay block))).outcome =
        .ok (timedSummary delay block m.state.count) ∧
      (m.run config (stream (timed delay block))).code = stream (timed delay block) := by
  unfold timedSummary
  split
  · rename_i opens
    obtain ⟨_, outcome, bytes, _⟩ := run_timed_of_open live isTimed opens
    exact ⟨outcome, bytes⟩
  · rename_i closed
    obtain ⟨_, outcome, bytes, _⟩ := run_timed_of_closed live isTimed closed
    exact ⟨outcome, bytes⟩

end Machine

/-- The numbers below `n` that `d` divides are `n / d` rounded up. -/
theorem countP_range_mod {d : Nat} (positive : 0 < d) (n : Nat) :
    (List.range n).countP (· % d = 0) = (n + d - 1) / d := by
  induction n with
  | zero => exact (Nat.div_eq_of_lt (by omega)).symm
  | succ n ih =>
    have next : n + 1 + d - 1 = n + d - 1 + 1 := by omega
    have period : d ∣ n + d - 1 + 1 ↔ n % d = 0 := by
      rw [Nat.sub_add_cancel (by omega), ← Nat.dvd_add_iff_left (Nat.dvd_refl d),
        Nat.dvd_iff_mod_eq_zero]
    rw [List.range_succ, List.countP_append, ih, next, Nat.succ_div]
    simp [period, List.countP_cons]

namespace Machine

/-- From the first pass on, a block is entered once in each period. -/
theorem countP_timedSummary {delay : UInt32} (positive : delay ≠ 0) (block : List Instruction)
    {passes : Nat} (bound : passes ≤ UInt32.size) :
    ((List.range passes).map fun k => timedSummary delay block (0 + UInt32.ofNat k)).countP
        (·.skippedBlocks = 0) = (passes + delay.toNat - 1) / delay.toNat := by
  have some_period : 0 < delay.toNat := by
    rw [Nat.pos_iff_ne_zero]
    exact fun zero => positive (UInt32.toNat_inj.mp zero)
  rw [← countP_range_mod some_period, List.countP_map]
  refine List.countP_congr fun k member => ?_
  have below : k < UInt32.size := Nat.lt_of_lt_of_le (List.mem_range.mp member) bound
  have divides : (0 + UInt32.ofNat k) % delay = 0 ↔ k % delay.toNat = 0 := by
    rw [← UInt32.toNat_inj, UInt32.zero_add, UInt32.toNat_mod, UInt32.toNat_ofNat_of_lt' below]
    rfl
  simp only [Function.comp_apply, timedSummary, positive, false_or, divides, decide_eq_true_eq]
  split <;> simp [*]

/-- All live passes over a timer block complete. Those whose count, modulo `2 ^ 32`, is a multiple of
the delay execute the block between the two timer instructions, as do all if there is no delay; the
others execute only these two, and nothing but flag, pointer and counter changes. The delay is zero after
every pass. From the first pass on, the block is executed once in each period. -/
theorem timer_gates_passes {config : Config} (live : config.live = true) (delay : UInt32)
    {block : List Instruction} (isTimed : TimedBlock block) :
    ∃ code, assemble (.timer delay :: (block ++ [.resetTimer])) = .ok code ∧
      ∀ (m : Machine H) (passes : Nat), ∃ summaries : Array Summary,
        let r := m.runPasses config passes code
        r.outcome = .ok summaries ∧ summaries.size = passes ∧ r.code = code ∧
        (∀ i < passes,
          let before := (m.runPasses config i code).machine
          let after := (m.runPasses config (i + 1) code).machine
          let count := m.state.count + UInt32.ofNat i
          before.state.count = count ∧ after.state.delay = 0 ∧
          if delay = 0 ∨ count % delay = 0 then
            let entered := executeAll { before with state := { before.state.beginPass with delay } } block
            (before.executions config code).map (·.instruction) =
                .timer delay :: (block.map Instruction.normalized ++ [.resetTimer]) ∧
              summaries[i]? = some ⟨block.length + 2, 0, code.length, count + 1⟩ ∧
              after.state = { entered.state with delay := 0, count := count + 1 } ∧
              after.host = entered.host
          else
            (before.executions config code).map (·.instruction) = [.timer delay, .resetTimer] ∧
              summaries[i]? = some ⟨2, 1, code.length, count + 1⟩ ∧
              after.state = { before.state.beginPass with delay := 0, count := count + 1 } ∧
              after.host = before.host) ∧
        (m.state.count = 0 → delay ≠ 0 → passes ≤ UInt32.size →
          summaries.toList.countP (·.skippedBlocks = 0) =
            (passes + delay.toNat - 1) / delay.toNat) := by
  refine ⟨stream (timed delay block), assemble_eq_stream (isTimed.keeps_timed delay), ?_⟩
  intro m passes
  have steady := runPasses_steady (run_timed_steady (H := H) live delay isTimed) m
  obtain ⟨outcome, bytes, _⟩ := steady passes
  refine ⟨_, outcome, by simp, bytes, ?_, ?_⟩
  · intro i inside before after count
    obtain ⟨_, _, counted, next⟩ := steady i
    have summary : ((List.range passes).map fun k =>
        timedSummary delay block (m.state.count + UInt32.ofNat k)).toArray[i]? =
          some (timedSummary delay block count) := by
      simp [inside, count]
    have counted : before.state.count = count := counted
    have next : after = (before.run config (stream (timed delay block))).machine := next
    rw [summary, timedSummary, next, ← counted]
    split
    · rename_i opens
      obtain ⟨executed, _, _, state, host⟩ := run_timed_of_open live isTimed opens
      exact ⟨rfl, congrArg State.delay state, executed, rfl, state, host⟩
    · rename_i closed
      obtain ⟨executed, _, _, state, host⟩ := run_timed_of_closed live isTimed closed
      exact ⟨rfl, congrArg State.delay state, executed, rfl, state, host⟩
  · intro zero positive bound
    simp only [zero]
    exact countP_timedSummary positive block bound

/-- A block with a terminator and a call in it, entered on every third pass: seven passes from the first
on, and two around the pass on which the counter comes round to zero, which both enter it; then a pass
between those that do. -/
theorem timer_gates_passes_third :
    let block := [Instruction.write ⟨.absolute, 4⟩ .word 9, .terminator,
      .call 0x80001000 3 4 #v[1, 2, 3, 9, 9, 9, 9, 9] 3]
    let m : Machine Memory := { host := {} }
    let late : Machine Memory := { host := {}, state := { count := 0xFFFFFFFF, delay := 9 } }
    TimedBlock block ∧
      ∃ code, assemble (.timer 3 :: (block ++ [.resetTimer])) = .ok code ∧
        (∃ summaries, (m.runPasses {} 7 code).outcome = .ok summaries ∧
          summaries.toList.countP (·.skippedBlocks = 0) = 3) ∧
        ∃ summaries, (late.runPasses {} 3 code).outcome = .ok summaries ∧
          summaries[0]? = some ⟨5, 0, code.length, 0⟩ ∧ summaries[1]? = some ⟨5, 0, code.length, 1⟩ ∧
          summaries[2]? = some ⟨2, 1, code.length, 2⟩ ∧
          (late.runPasses {} 3 code).machine.host = (late.runPasses {} 2 code).machine.host := by
  intro block m late
  have isTimed : TimedBlock block := by decide
  obtain ⟨code, assembled, gates⟩ :=
    timer_gates_passes (H := Memory) (rfl : ({} : Config).live = true) 3 isTimed
  obtain ⟨summaries, outcome, _, _, _, counted⟩ := gates m 7
  obtain ⟨lateSummaries, lateOutcome, _, _, each, _⟩ := gates late 3
  have counts : late.state.count + UInt32.ofNat 0 + 1 = 0 ∧
      late.state.count + UInt32.ofNat 1 + 1 = 1 ∧ late.state.count + UInt32.ofNat 2 + 1 = 2 := by
    decide
  obtain ⟨_, _, first⟩ := each 0 (by decide)
  obtain ⟨_, _, second⟩ := each 1 (by decide)
  obtain ⟨_, _, third⟩ := each 2 (by decide)
  rw [if_pos (by decide)] at first second
  rw [if_neg (by decide)] at third
  obtain ⟨_, first, _⟩ := first
  obtain ⟨_, second, _⟩ := second
  obtain ⟨_, third, _, host⟩ := third
  rw [counts.1] at first
  rw [counts.2.1] at second
  rw [counts.2.2] at third
  exact ⟨isTimed, code, assembled, ⟨summaries, outcome, counted rfl (by decide) (by decide)⟩,
    lateSummaries, lateOutcome, first, second, third, host⟩

end Machine

end LivePatch
