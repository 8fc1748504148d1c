import LivePatch.Host.Journal
import LivePatch.Proofs.Dispatch.Counter
import LivePatch.Proofs.Dispatch.Parallel
import LivePatch.Proofs.Host.Constant

namespace LivePatch

namespace Machine

variable {H K : Type}

/-- The machine on the host that answers as the closed gate does. -/
def onConstant (m : Machine H) (config : Config) : Machine ConstantHost where
  host := .ofConfig config
  log := m.log
  state := m.state

variable [Host H] [Host K]

/-- A dry run is a pass on constant answers. -/
theorem run_of_dry (m : Machine H) {config : Config} (dry : config.live = false) (trace : Bool)
    (code : Bytes) :
    let pass := (m.onConstant config).pass trace code
    m.executions config code = ((m.onConstant config).opening code).executions trace ∧
      (m.run config code).outcome = pass.outcome ∧ (m.run config code).code = pass.code ∧
      (m.run config code).machine.state = pass.machine.state.restoring m.state ∧
      (m.run config code).machine.host = m.host := by
  intro pass
  have closed : (Gate.ofConfig config m.host).live = false := dry
  have shut : (Gate.ofConfig config m.host).StaysShut (m.gated config).host (m.onConstant config).host :=
    ⟨rfl, rfl⟩
  obtain ⟨executed, outcome, bytes, alike⟩ := pass_alike (Gate.bisimulation_staysShut closed)
    (rfl : (m.gated config).state.beginPass = (m.onConstant config).state.beginPass) shut config.trace
    trace code
  have unchanged : ((m.gated config).pass config.trace code).machine.host.host = m.host :=
    congrArg Gate.host alike.host.gate
  refine ⟨executed, outcome, bytes, ?_, ?_⟩
  · simp only [run, dry, ungated, alike.state]
    rfl
  · simp only [run, dry]
    exact unchanged

/-- A live run is a pass on the host itself. -/
theorem run_of_live (m : Machine H) {config : Config} (live : config.live = true) (trace : Bool)
    (code : Bytes) :
    m.executions config code = (m.opening code).executions trace ∧
      (m.run config code).outcome = (m.pass trace code).outcome ∧
      (m.run config code).code = (m.pass trace code).code ∧
      (m.run config code).machine.state = (m.pass trace code).machine.state ∧
      (m.run config code).machine.host = (m.pass trace code).machine.host := by
  have opens : (m.gated config).host.OpensTo m.host := ⟨live, rfl⟩
  obtain ⟨executed, outcome, bytes, alike⟩ := pass_alike Gate.bisimulation_opensTo
    (rfl : (m.gated config).state.beginPass = m.state.beginPass) opens config.trace trace code
  refine ⟨executed, outcome, bytes, ?_, ?_⟩
  · simp only [run, live, if_true]
    exact alike.state
  · simp only [run, live, if_true]
    exact alike.host.host

/-- Nothing that a dry run does reaches its host, what it computes is put back, and it depends on
nothing but the registers, the delay and the counter. -/
theorem dry_run_isolated {config : Config} (dry : config.live = false) (code : Bytes) :
    (∀ m : Machine H,
      let r := m.run config code
      r.machine.host = m.host ∧ r.machine.state.registers = m.state.registers ∧
        r.machine.state.pointer = m.state.pointer ∧ r.machine.state.flag = m.state.flag ∧
        (∀ summary, r.outcome = .ok summary → r.machine.state.count = m.state.count + 1) ∧
        ∀ error, r.outcome = .error error → r.machine.state.count = m.state.count) ∧
    (∀ m : Machine (Journal H), (m.run config code).machine.host.calls = m.host.calls) ∧
    ∀ (m : Machine H) (n : Machine K), m.state.registers = n.state.registers →
      m.state.delay = n.state.delay → m.state.count = n.state.count →
      (m.run config code).outcome = (n.run config code).outcome ∧
        (m.run config code).code = (n.run config code).code ∧
        (m.run config code).machine.state.delay = (n.run config code).machine.state.delay ∧
        (m.run config code).machine.state.count = (n.run config code).machine.state.count := by
  refine ⟨?_, ?_, ?_⟩
  · intro m r
    obtain ⟨_, _, _, state, host⟩ := m.run_of_dry dry config.trace code
    have counted := m.count_run config code
    refine ⟨host, ?_, ?_, ?_, ?_, ?_⟩
    · rw [state]
      rfl
    · rw [state]
      rfl
    · rw [state]
      rfl
    · intro summary completed
      rwa [completed] at counted
    · intro error failed
      rwa [failed] at counted
  · intro m
    exact congrArg Journal.calls (m.run_of_dry dry config.trace code).2.2.2.2
  · intro m n registers delay count
    have start : (m.onConstant config).state.beginPass = (n.onConstant config).state.beginPass := by
      simp only [onConstant, State.beginPass, registers, delay, count]
    obtain ⟨_, outcome, bytes, state, _⟩ := m.run_of_dry dry config.trace code
    obtain ⟨_, outcomeAgain, bytesAgain, stateAgain, _⟩ := n.run_of_dry dry config.trace code
    obtain ⟨_, sameOutcome, sameBytes, alike⟩ := pass_alike (Bisimulation.eq ConstantHost) start rfl
      config.trace config.trace code
    refine ⟨?_, ?_, ?_, ?_⟩
    · rw [outcome, outcomeAgain, sameOutcome]
    · rw [bytes, bytesAgain, sameBytes]
    · simp only [state, stateAgain, State.restoring, alike.state]
    · simp only [state, stateAgain, State.restoring, alike.state]

/-- A test that the sentinel passes, a write, a load and a call, from states and on memories that differ:
the journal stays empty. -/
theorem dry_run_isolated_journal :
    let config : Config := { live := false }
    let code := [Instruction.test .equal ⟨.absolute, 16⟩ .word 0x43219876 0,
      .write ⟨.absolute, 16⟩ .word 7, .loadInteger ⟨.absolute, 16⟩ .byte 3,
      .call 0x80001000 3 4 #v[1, 2, 3, 0, 0, 0, 0, 0] 3, .timer 5].flatMap Instruction.encode
    let m : Machine (Journal Memory) := { host := { host := {} }, state := { pointer := 6 } }
    let n : Machine Memory := { host := ({} : Memory).load 16 [1, 2, 3, 4], state := { flag := true } }
    (m.run config code).outcome = .ok ⟨5, 0, 72, 1⟩ ∧ (m.run config code).machine.host.calls = #[] ∧
      (m.run config code).machine.state.pointer = 6 ∧ (m.run config code).machine.state.count = 1 ∧
      (n.run config code).outcome = .ok ⟨5, 0, 72, 1⟩ ∧ (n.run config code).machine.state.flag = true := by
  intro config code m n
  have completed : (m.run config code).outcome = .ok ⟨5, 0, 72, 1⟩ := by decide +kernel
  obtain ⟨alone, _, together⟩ := dry_run_isolated (H := Journal Memory) (K := Memory)
    (rfl : config.live = false) code
  obtain ⟨aloneMemory, _, _⟩ := dry_run_isolated (H := Memory) (K := Memory) (rfl : config.live = false) code
  obtain ⟨host, _, pointer, _, counted, _⟩ := alone m
  obtain ⟨outcome, _⟩ := together m n rfl rfl rfl
  exact ⟨completed, congrArg Journal.calls host, pointer, counted _ completed, outcome.symm.trans completed,
    (aloneMemory n).2.2.2.1⟩

/-- A dry run takes the course of a live run on a host of constant answers, and leaves what that run
leaves, but for registers, pointer and flag, which it puts back. -/
theorem dry_run_as_live (m : Machine H) {config live : Config} (dry : config.live = false)
    (enabled : live.live = true) (code : Bytes) :
    let rehearsed := m.run config code
    let lived := (m.onConstant config).run live code
    m.executions config code = (m.onConstant config).executions live code ∧
      rehearsed.outcome = lived.outcome ∧ rehearsed.code = lived.code ∧
      rehearsed.machine.state.delay = lived.machine.state.delay ∧
      rehearsed.machine.state.count = lived.machine.state.count ∧
      rehearsed.machine.state = { lived.machine.state with
        registers := m.state.registers, pointer := m.state.pointer, flag := m.state.flag } := by
  intro rehearsed lived
  obtain ⟨executed, outcome, bytes, state, _⟩ := m.run_of_dry dry live.trace code
  obtain ⟨executedLive, outcomeLive, bytesLive, stateLive, _⟩ :=
    (m.onConstant config).run_of_live enabled live.trace code
  have restored : rehearsed.machine.state = lived.machine.state.restoring m.state := by
    rw [state, stateLive]
  refine ⟨?_, ?_, ?_, ?_, ?_, restored⟩
  · rw [executed, executedLive]
  · rw [outcome, outcomeLive]
  · rw [bytes, bytesLive]
  · rw [restored]
    rfl
  · rw [restored]
    rfl

/-- A block that the sentinel skips, then a search that every byte of the sentinel matches: the dry run
and the live one rewrite the stream in the same way. -/
theorem dry_run_as_live_search :
    let config : Config := { live := false, readValue := 0xABABABAB }
    let code := [Instruction.test .less ⟨.absolute, 16⟩ .half 3 0, .systemCall 9, .terminator,
      .search [0xAB, 0xAB] 2 1 2, .loadInteger ⟨.relative, 4⟩ .word 5].flatMap Instruction.encode
    let m : Machine Memory := { host := {}, state := { count := 4 } }
    config.live = false ∧ (m.run config code).outcome = .ok ⟨5, 1, 48, 5⟩ ∧
      ((m.onConstant config).run {} code).outcome = .ok ⟨5, 1, 48, 5⟩ ∧
      (m.run config code).code = ((m.onConstant config).run {} code).code := by
  intro config code m
  have completed : (m.run config code).outcome = .ok ⟨5, 1, 48, 5⟩ := by decide +kernel
  obtain ⟨_, outcome, bytes, _⟩ := m.dry_run_as_live (rfl : config.live = false)
    (rfl : ({} : Config).live = true) code
  exact ⟨rfl, completed, outcome.symm.trans completed, bytes⟩

end Machine

end LivePatch
