import LivePatch.Proofs.Dispatch.Transition

namespace LivePatch

/-- The bytes from `start` on, if there is such a range. -/
def Stream.from? (bs : Bytes) (start : Nat) : Option Bytes :=
  if start ≤ bs.length then some (bs.drop start) else none

/-- A pass under way, as a whole stream and an offset that may lie anywhere. -/
structure Flat (H : Type) where
  code : Bytes
  offset : Nat
  machine : Machine H
  instructions : Nat
  skipped : Nat

inductive Flat.Outcome (H : Type) where
  | done (x : Flat H)
  | failed (error : PassError) (x : Flat H)
  | next (x : Flat H)
  /-- A range that the step needs does not exist. -/
  | outOfRange

namespace Flat

variable {H : Type}

/-- Moves from the end of the instruction at `opened` to the closing line. -/
def skipTo (x : Flat H) (opened : Nat) (blockEnd : BlockEnd) : Outcome H :=
  match Stream.from? x.code x.offset with
  | none => .outOfRange
  | some tail =>
    match Stream.find? blockEnd.line.toList tail with
    | none => .failed (.unterminatedBlock opened blockEnd) x
    | some k =>
      .next { x with
        offset := x.offset + k
        machine := x.machine.report (.blockSkipped x.offset (x.offset + k) blockEnd)
        skipped := x.skipped + 1 }

/-- Overwrites the first line of the instruction at `start` and cuts out its other lines. -/
def replace (x : Flat H) (start consumed : Nat) (address : UInt32) : Outcome H :=
  if consumed < 8 then .outOfRange
  else
    .next { x with
      code := Stream.replaceByPointerLoad x.code start consumed address
      offset := start
      machine := x.machine.report (.templateReplaced start address (consumed - 8)) }

def follow (x : Flat H) (start consumed : Nat) : Flow → Outcome H
  | .next => .next { x with offset := start + consumed }
  | .skipTo blockEnd => { x with offset := start + consumed }.skipTo start blockEnd
  | .replace address => x.replace start consumed address

def step [Host H] (trace : Bool) (x : Flat H) : Outcome H :=
  if x.code.length < x.offset then .failed (.negativeLength x.offset x.code.length) x
  else if (x.code.length - x.offset) % 8 ≠ 0 then
    .failed (.misalignedLength x.offset (x.code.length - x.offset)) x
  else if x.code.length - x.offset = 0 then .done x
  else
    match Stream.from? x.code x.offset with
    | none => .outOfRange
    | some rest =>
      match decode rest with
      | .error cause => .failed (.decode x.offset cause) x
      | .ok (i, consumed) =>
        let machine := x.machine.report (Dispatch.executionEvent trace x.offset i)
        let (flow, machine) := machine.execute i
        { x with machine, instructions := x.instructions + 1 }.follow x.offset consumed flow

/-- The states that the loop comes to. -/
inductive Reaches [Host H] (trace : Bool) (start : Flat H) : Flat H → Prop
  | start : Reaches trace start start
  | step {x y} : Reaches trace start x → x.step trace = .next y → Reaches trace start y

end Flat

variable {H : Type}

def Dispatch.flat (d : Dispatch H) : Flat H :=
  ⟨d.tape.bytes, d.tape.position, d.machine, d.instructions, d.skipped⟩

def Step.flat : Step H → Flat.Outcome H
  | .done d => .done d.flat
  | .failed error d => .failed error d.flat
  | .next d => .next d.flat

theorem Tape.from?_position (t : Tape) : Stream.from? t.bytes t.position = some t.rest := by
  have total := t.length_bytes
  rw [Stream.from?, if_pos (by omega), t.drop_position]

namespace Dispatch

theorem flat_skipTo {d : Dispatch H} {consumed : Nat} (blockEnd : BlockEnd)
    (within : consumed ≤ d.tape.rest.length) :
    { d.flat with offset := d.tape.position + consumed }.skipTo d.tape.position blockEnd =
      (d.skipTo consumed blockEnd).flat := by
  have onward := Tape.position_advance within
  have range : Stream.from? d.tape.bytes (d.tape.position + consumed) =
      some (d.tape.advance consumed).rest := by
    rw [← onward, ← Tape.bytes_advance d.tape consumed, Tape.from?_position]
  simp only [Flat.skipTo, skipTo, flat, range]
  cases found : Stream.find? blockEnd.line.toList (d.tape.advance consumed).rest with
  | none => simp only [Step.flat, flat, Tape.bytes_advance, onward]
  | some offset =>
    have bound := Stream.find?_bound found
    have landed := Tape.position_advance (t := d.tape.advance consumed) (n := offset) (by omega)
    simp only [Step.flat, flat, Tape.bytes_advance, landed, onward, report]

theorem flat_replace {d : Dispatch H} {consumed : Nat} (address : UInt32) (line : 8 ≤ consumed)
    (within : consumed ≤ d.tape.rest.length) :
    d.flat.replace d.tape.position consumed address = .next (d.replace consumed address).flat := by
  have total := d.tape.length_bytes
  have inside : d.tape.position + consumed ≤ d.tape.bytes.length := by omega
  have written := Stream.replaceByPointerLoad_of_le address line inside
  rw [← Tape.bytes_replace address line within] at written
  rw [Flat.replace, if_neg (by omega)]
  simp only [flat, written]
  rfl

theorem flat_follow {d : Dispatch H} {consumed : Nat} (flow : Flow) (line : 8 ≤ consumed)
    (within : consumed ≤ d.tape.rest.length) :
    d.flat.follow d.tape.position consumed flow = (d.follow consumed flow).flat := by
  cases flow with
  | next => simp only [Flat.follow, follow, Step.flat, flat, Tape.bytes_advance,
      Tape.position_advance within]
  | skipTo blockEnd => exact flat_skipTo blockEnd within
  | replace address => exact flat_replace address line within

variable [Host H]

/-- Every check of a range succeeds, and the loop does what it does without them. -/
theorem flat_step (trace : Bool) (d : Dispatch H) : d.flat.step trace = (d.step trace).flat := by
  have total := d.tape.length_bytes
  have inside : ¬ d.flat.code.length < d.flat.offset := by
    simp only [flat]
    omega
  have remaining : d.flat.code.length - d.flat.offset = d.tape.remaining := by
    rw [d.tape.remaining_eq]
    simp only [flat]
    omega
  rw [Flat.step, step, if_neg inside, remaining]
  split
  · rfl
  split
  · rfl
  have range : Stream.from? d.flat.code d.flat.offset = some d.tape.rest := d.tape.from?_position
  simp only [range]
  cases decoded : decode d.tape.rest with
  | error cause => rfl
  | ok found =>
    obtain ⟨line, _, within⟩ := Instruction.consumed_of_decode decoded
    exact flat_follow (d := (d.perform trace found.1).2) (d.perform trace found.1).1 line within

theorem exists_dispatch_of_flat {trace : Bool} {start : Dispatch H} {x : Flat H}
    (reach : Flat.Reaches trace start.flat x) : ∃ es d, Reaches trace start es d ∧ x = d.flat := by
  induction reach with
  | start => exact ⟨[], start, .start, rfl⟩
  | step _ moved ih =>
    obtain ⟨es, d, reach, rfl⟩ := ih
    rw [flat_step] at moved
    cases step : d.step trace with
    | next next =>
      rw [step] at moved
      cases moved
      obtain ⟨e, moves⟩ := exists_moves step
      exact ⟨es ++ [e], next, reach.move moves.executed.execution?_eq step, rfl⟩
    | done last | failed error last =>
      rw [step] at moved
      cases moved

end Dispatch

end LivePatch
