import LivePatch.Host.Journal
import LivePatch.Host.Memory
import LivePatch.Machine

namespace LivePatch

namespace Instruction

/-- The instruction with another address operand, for the kinds that have one. -/
def withTarget (i : Instruction) (t : Target) : Instruction :=
  match i with
  | write _ width value => write t width value
  | writeString _ bytes => writeString t bytes
  | writeSeries _ width value iterations step increment =>
    writeSeries t width value iterations step increment
  | fill _ value length => fill t value length
  | test comparison _ width value upper => test comparison t width value upper
  | loadInteger _ width register => loadInteger t width register
  | storeInteger _ width register => storeInteger t width register
  | loadFloat _ register => loadFloat t register
  | storeFloat _ register => storeFloat t register
  | loadPointer _ lower upper => loadPointer t lower upper
  | i => i

theorem withTarget_self {i : Instruction} {t : Target} (operand : i.target? = some t) :
    i.withTarget t = i := by
  cases i with
  | write | writeString | writeSeries | fill | test | loadInteger | storeInteger | loadFloat | storeFloat
  | loadPointer =>
    cases operand
    rfl
  | _ => cases operand

end Instruction

namespace State

theorem resolve?_absolute (s : State) (address : UInt32) :
    s.resolve? ⟨.absolute, address⟩ = some address := rfl

theorem resolve?_of_unloaded {s : State} (unloaded : s.pointer = 0) (address : UInt32) :
    s.resolve? ⟨.relative, address⟩ = none := by
  simp [resolve?, allows, unloaded]

theorem resolve?_of_loaded {s : State} (loaded : s.pointer ≠ 0) (address : UInt32) :
    s.resolve? ⟨.relative, address⟩ = some (s.pointer + address) := by
  simp [resolve?, allows, resolve, loaded]

end State

namespace Machine

variable {H : Type}

theorem onTarget_of_resolved {m : Machine H} {t : Target} {address : UInt32}
    (resolved : m.state.resolve? t = some address) (act : Machine H → UInt32 → Flow × Machine H) :
    m.onTarget t act = act m address := by
  rw [onTarget, resolved]

theorem onTarget_of_unresolved {m : Machine H} {t : Target} (unresolved : m.state.resolve? t = none)
    (act : Machine H → UInt32 → Flow × Machine H) :
    m.onTarget t act = (.next, m.report (.suppressed t.address)) := by
  rw [onTarget, unresolved]

variable [Host H]

/-- What an instruction does with its operand does not depend on how the operand is given. -/
theorem exists_execute_eq_onTarget {i : Instruction} {t : Target} (operand : i.target? = some t) :
    ∃ act : Machine H → UInt32 → Flow × Machine H,
      ∀ (m : Machine H) (u : Target), m.execute (i.withTarget u) = m.onTarget u act := by
  cases i with
  | write | writeString | writeSeries | fill | test | loadInteger | storeInteger | loadFloat | storeFloat
  | loadPointer => exact ⟨_, fun _ _ => rfl⟩
  | _ => cases operand

theorem execute_of_unloaded {i : Instruction} {address : UInt32}
    (relative : i.target? = some ⟨.relative, address⟩) {m : Machine H} (unloaded : m.state.pointer = 0) :
    m.execute i = (.next, m.report (.suppressed address)) := by
  obtain ⟨act, executes⟩ := exists_execute_eq_onTarget (H := H) relative
  have here := executes m ⟨.relative, address⟩
  rw [Instruction.withTarget_self relative] at here
  rw [here, onTarget_of_unresolved (State.resolve?_of_unloaded unloaded address)]

theorem execute_of_loaded {i : Instruction} {address : UInt32}
    (relative : i.target? = some ⟨.relative, address⟩) {m : Machine H} (loaded : m.state.pointer ≠ 0) :
    m.execute i = m.execute (i.withTarget ⟨.absolute, m.state.pointer + address⟩) := by
  obtain ⟨act, executes⟩ := exists_execute_eq_onTarget (H := H) relative
  have here := executes m ⟨.relative, address⟩
  rw [Instruction.withTarget_self relative] at here
  rw [here, executes, onTarget_of_resolved (State.resolve?_of_loaded loaded address),
    onTarget_of_resolved (m.state.resolve?_absolute _)]

/-- Without a pointer an instruction with a relative operand leaves the state and the host alone and goes
on; nothing is asked of the host. With one it is the instruction whose operand is the absolute address
behind the pointer. -/
theorem execute_relative {i : Instruction} {address : UInt32}
    (relative : i.target? = some ⟨.relative, address⟩) :
    (∀ m : Machine H, m.state.pointer = 0 →
      (m.execute i).1 = .next ∧ (m.execute i).2.state = m.state ∧ (m.execute i).2.host = m.host) ∧
    (∀ m : Machine (Journal H), m.state.pointer = 0 → (m.execute i).2.host.calls = m.host.calls) ∧
    ∀ m : Machine H, m.state.pointer ≠ 0 →
      m.execute i = m.execute (i.withTarget ⟨.absolute, m.state.pointer + address⟩) := by
  refine ⟨?_, ?_, ?_⟩
  · intro m unloaded
    rw [execute_of_unloaded relative unloaded]
    exact ⟨rfl, rfl, rfl⟩
  · intro m unloaded
    rw [execute_of_unloaded relative unloaded]
    rfl
  · intro m loaded
    exact execute_of_loaded relative loaded

/-- A pointer load relative to the pointer itself, at an address that wraps, and the same load without a
pointer. -/
theorem execute_relative_wraps :
    let i := Instruction.loadPointer ⟨.relative, 0x20⟩ 0x80000000 0x81800000
    let m : Machine Memory :=
      { host := ({} : Memory).load 0x10 [0x81, 0, 0, 0], state := { pointer := 0xFFFFFFF0 } }
    let idle : Machine (Journal Memory) := { host := { host := m.host }, state := { flag := true } }
    i.target? = some ⟨.relative, 0x20⟩ ∧
      m.execute i = m.execute (i.withTarget ⟨.absolute, 0xFFFFFFF0 + 0x20⟩) ∧
      (m.execute i).2.state.pointer = 0x10 ∧
      (idle.execute i).1 = .next ∧ (idle.execute i).2.state = idle.state ∧
      (idle.execute i).2.host.calls = #[] := by
  intro i m idle
  have relative : i.target? = some ⟨.relative, 0x20⟩ := rfl
  obtain ⟨_, unasked, behind⟩ := execute_relative (H := Memory) relative
  obtain ⟨still, _, _⟩ := execute_relative (H := Journal Memory) relative
  have moved : (m.execute i).2.state.pointer = 0x10 := by decide +kernel
  obtain ⟨onward, state, _⟩ := still idle rfl
  exact ⟨relative, behind m (by decide), moved, onward, state, unasked idle rfl⟩

end Machine

end LivePatch
