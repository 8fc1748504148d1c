import LivePatch.Host.Gate
import LivePatch.Host.Memory
import LivePatch.Machine.Pass

namespace LivePatch

namespace Machine

variable {H : Type}

/-- The machine behind a gate. -/
def gated (m : Machine H) (config : Config) : Machine (Gate H) where
  host := .ofConfig config m.host
  log := m.log
  state := m.state

/-- The machine in front of its gate again. -/
def ungated (m : Machine (Gate H)) : Machine H where
  host := m.host.host
  log := m.log
  state := m.state

variable [Host H]

/-- One pass. A dry run keeps only the timer and the counter, also after an error. -/
def run (m : Machine H) (config : Config) (code : Bytes) : PassResult H :=
  let saved := m.state
  let r := (m.gated config).pass config.trace code
  let m := r.machine.ungated
  let m := if config.live then m else { m with state := m.state.restoring saved }
  ⟨r.outcome, r.code, m⟩

/-- What several passes leave. -/
structure PassesResult (H : Type) where
  outcome : Except PassError (Array Summary)
  code : Bytes
  machine : Machine H

/-- Runs further passes on top of `completed`; the first error ends them. -/
def runPassesFrom (config : Config) (completed : Array Summary) :
    (passes : Nat) → (code : Bytes) → (m : Machine H) → PassesResult H
  | 0, code, m => ⟨.ok completed, code, m⟩
  | n + 1, code, m =>
    let r := m.run config code
    match r.outcome with
    | .error e => ⟨.error e, r.code, r.machine⟩
    | .ok summary => runPassesFrom config (completed.push summary) n r.code r.machine

def runPasses (m : Machine H) (config : Config) (passes : Nat) (code : Bytes) : PassesResult H :=
  runPassesFrom config #[] passes code m

end Machine

/-- The memory that one live pass over a stream leaves, from empty memory. -/
def patchedMemory (code : Bytes) : Except PassError Memory :=
  let m : Machine Memory := { host := {} }
  let r := m.run {} code
  r.outcome.map fun _ => r.machine.host

end LivePatch
