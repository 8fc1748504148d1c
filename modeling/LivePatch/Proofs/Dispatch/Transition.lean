import LivePatch.Proofs.Dispatch.Reach
import LivePatch.Proofs.Stream.Find
import LivePatch.Proofs.Stream.Surgery

namespace LivePatch

namespace Tape

theorem length_bytes (t : Tape) : t.bytes.length = t.position + t.rest.length := by
  simp [bytes, position]

theorem take_position (t : Tape) : t.bytes.take t.position = t.passed.toList := by
  simp [bytes, position]

theorem drop_position (t : Tape) : t.bytes.drop t.position = t.rest := by
  simp [bytes, position]

@[simp] theorem rest_advance (t : Tape) (n : Nat) : (t.advance n).rest = t.rest.drop n := rfl

@[simp] theorem bytes_advance (t : Tape) (n : Nat) : (t.advance n).bytes = t.bytes := by
  simp [bytes, advance]

theorem toList_passed_advance (t : Tape) (n : Nat) :
    (t.advance n).passed.toList = t.passed.toList ++ t.rest.take n :=
  Array.toList_appendList

theorem position_advance {t : Tape} {n : Nat} (within : n ≤ t.rest.length) :
    (t.advance n).position = t.position + n := by
  rw [position, position, ← Array.length_toList, ← Array.length_toList, toList_passed_advance,
    List.length_append, List.length_take, Nat.min_eq_left within]

theorem rest_replace {t : Tape} {consumed : Nat} (address : UInt32) (line : 8 ≤ consumed)
    (within : consumed ≤ t.rest.length) :
    (t.replace consumed address).rest =
      (pointerLine address).toList ++ t.rest.drop consumed := by
  have inside : 0 + consumed ≤ t.rest.length := by omega
  have written := Stream.replaceByPointerLoad_of_le address line inside
  rwa [List.take_zero, List.nil_append, Nat.zero_add] at written

theorem bytes_replace {t : Tape} {consumed : Nat} (address : UInt32) (line : 8 ≤ consumed)
    (within : consumed ≤ t.rest.length) :
    (t.replace consumed address).bytes =
      t.bytes.take t.position ++ (pointerLine address).toList ++
        t.bytes.drop (t.position + consumed) := by
  rw [take_position, ← List.drop_drop, drop_position, List.append_assoc,
    ← rest_replace address line within]
  rfl

end Tape

namespace BlockEnd

/-- The instruction that closes the block. -/
def instruction : BlockEnd → Instruction
  | terminator => .terminator
  | resetTimer => .resetTimer

theorem mem_all (blockEnd : BlockEnd) : blockEnd ∈ [terminator, resetTimer] := by
  cases blockEnd <;> decide

theorem decode_line_append (blockEnd : BlockEnd) (tail : Bytes) :
    decode (blockEnd.line.toList ++ tail) = .ok (blockEnd.instruction, 8) := by
  cases blockEnd <;> rfl

theorem execute_instruction {H : Type} [Host H] (blockEnd : BlockEnd) (m : Machine H) :
    (m.execute blockEnd.instruction).1 = .next := by
  cases blockEnd <;> rfl

end BlockEnd

namespace Execution

/-- What `e` makes of the stream: a search turns into a pointer load. -/
def rewrite (e : Execution) (bs : Bytes) : Bytes :=
  match e.flow with
  | .replace address =>
    bs.take e.position ++ (pointerLine address).toList ++ bs.drop (e.position + e.consumed)
  | _ => bs

/-- Number of bytes that stand in place of the instruction afterwards. -/
def kept (e : Execution) : Nat :=
  match e.flow with
  | .replace _ => 8
  | _ => e.consumed

theorem take_rewrite {e : Execution} {bs : Bytes} (within : e.position + e.consumed ≤ bs.length) :
    (e.rewrite bs).take e.position = bs.take e.position := by
  cases flow : e.flow with
  | next | skipTo => simp only [rewrite, flow]
  | replace address =>
    have front : (bs.take e.position).length = e.position := by
      rw [List.length_take]
      omega
    simp only [rewrite, flow, List.append_assoc]
    rw [List.take_append_of_le_length (by omega), List.take_take, Nat.min_self]

theorem drop_rewrite {e : Execution} {bs : Bytes} (within : e.position + e.consumed ≤ bs.length) :
    (e.rewrite bs).drop (e.position + e.kept) = bs.drop (e.position + e.consumed) := by
  cases flow : e.flow with
  | next | skipTo => simp only [rewrite, kept, flow]
  | replace address =>
    have front : (bs.take e.position ++ (pointerLine address).toList).length = e.position + 8 := by
      rw [List.length_append, List.length_take, Vector.length_toList]
      omega
    simp only [rewrite, kept, flow]
    rw [← front, List.drop_left]

theorem length_rewrite {e : Execution} {bs : Bytes} (line : 8 ≤ e.consumed)
    (within : e.position + e.consumed ≤ bs.length) :
    (e.rewrite bs).length + (e.consumed - e.kept) = bs.length := by
  cases flow : e.flow with
  | next | skipTo => simp only [rewrite, kept, flow, Nat.sub_self, Nat.add_zero]
  | replace address =>
    simp only [rewrite, kept, flow, List.length_append, List.length_take, List.length_drop,
      Vector.length_toList]
    omega

end Execution

namespace Dispatch

variable {H : Type} [Host H]

theorem Executes.consumed_bounds {trace : Bool} {d : Dispatch H} {e : Execution}
    (executed : d.Executes trace e) :
    8 ≤ e.consumed ∧ e.consumed % 8 = 0 ∧ e.consumed ≤ d.tape.rest.length :=
  Instruction.consumed_of_decode executed.decoded

theorem Executes.isSearch_iff {trace : Bool} {d : Dispatch H} {e : Execution}
    (executed : d.Executes trace e) :
    e.instruction.isSearch = true ↔ ∃ address, e.flow = .replace address := by
  have flow := executed.flow_eq
  constructor
  · intro search
    cases same : e.instruction with
    | search template index startHigh stopHigh =>
      rw [same] at flow
      exact ⟨_, flow.symm⟩
    | _ =>
      rw [same] at search
      cases search
  · rintro ⟨address, replaces⟩
    obtain ⟨template, index, startHigh, stopHigh, same⟩ :=
      Machine.search_of_replace (flow.trans replaces)
    rw [same]
    rfl

theorem Executes.isSearch_eq_false {trace : Bool} {d : Dispatch H} {e : Execution}
    (executed : d.Executes trace e) (other : ∀ address, e.flow ≠ .replace address) :
    e.instruction.isSearch = false := by
  rw [← Bool.not_eq_true, executed.isSearch_iff]
  rintro ⟨address, replaces⟩
  exact other address replaces

/-- Where the position goes after `e`. -/
def Lands (d : Dispatch H) (e : Execution) (next : Dispatch H) : Prop :=
  match e.flow with
  | .next => next.tape.position = e.position + e.consumed
  | .skipTo blockEnd => e.position + e.consumed ≤ next.tape.position ∧
      next.tape.position + 8 ≤ d.tape.bytes.length ∧ blockEnd.line.toList <+: next.tape.rest
  | .replace _ => next.tape.position = e.position

theorem Moves.lands {trace : Bool} {d next : Dispatch H} {e : Execution}
    (moved : d.Moves trace e next) : Lands d e next := by
  have position := moved.executed.position_eq
  obtain ⟨line, _, within⟩ := moved.executed.consumed_bounds
  have onward := Tape.position_advance within
  cases moved with
  | onward executed flow =>
    rw [Lands, flow, position]
    exact onward
  | replace executed flow =>
    rw [Lands, flow, position]
    rfl
  | @skip blockEnd offset executed flow found =>
    have bound := Stream.find?_bound found
    have size : blockEnd.line.toList.length = 8 := Vector.length_toList
    rw [size, List.length_drop] at bound
    have landed : ((d.tape.advance e.consumed).advance offset).position =
        d.tape.position + e.consumed + offset := by
      rw [Tape.position_advance (by rw [Tape.rest_advance, List.length_drop]; omega), onward]
    have total := d.tape.length_bytes
    rw [Lands, flow, position]
    refine ⟨?_, ?_, (Stream.find?_eq_some_iff.mp found).2.1⟩
    · show d.tape.position + e.consumed ≤ ((d.tape.advance e.consumed).advance offset).position
      omega
    · show ((d.tape.advance e.consumed).advance offset).position + 8 ≤ d.tape.bytes.length
      omega

theorem Moves.stream {trace : Bool} {d next : Dispatch H} {e : Execution}
    (moved : d.Moves trace e next) : next.tape.bytes = e.rewrite d.tape.bytes := by
  obtain ⟨line, _, within⟩ := moved.executed.consumed_bounds
  cases moved with
  | onward executed flow =>
    rw [Execution.rewrite, flow]
    exact Tape.bytes_advance d.tape e.consumed
  | skip executed flow found =>
    rw [Execution.rewrite, flow]
    exact (Tape.bytes_advance _ _).trans (Tape.bytes_advance _ _)
  | replace executed flow =>
    rw [Execution.rewrite, flow, executed.position_eq]
    exact Tape.bytes_replace _ line within

theorem Moves.stream_of_other {trace : Bool} {d next : Dispatch H} {e : Execution}
    (moved : d.Moves trace e next) (other : e.instruction.isSearch = false) :
    next.tape.bytes = d.tape.bytes := by
  rw [moved.stream]
  cases flow : e.flow with
  | next | skipTo => simp only [Execution.rewrite, flow]
  | replace address =>
    rw [moved.executed.isSearch_iff.mpr ⟨address, flow⟩] at other
    cases other

/-- What executing `e` at `d` does to the position and to the stream. -/
structure Transition (d : Dispatch H) (e : Execution) (next : Dispatch H) : Prop where
  position_eq : e.position = d.tape.position
  whole : 8 ≤ e.consumed ∧ e.consumed % 8 = 0 ∧ e.position + e.consumed ≤ d.tape.bytes.length
  replaces : e.instruction.isSearch = true ↔ ∃ address, e.flow = .replace address
  stream : next.tape.bytes = e.rewrite d.tape.bytes
  before : next.tape.bytes.take e.position = d.tape.bytes.take e.position
  after : next.tape.bytes.drop (e.position + e.kept) = d.tape.bytes.drop (e.position + e.consumed)
  lands : Lands d e next
  forward : d.tape.position ≤ next.tape.position

theorem Moves.transition {trace : Bool} {d next : Dispatch H} {e : Execution}
    (moved : d.Moves trace e next) : Transition d e next := by
  have position := moved.executed.position_eq
  have total := d.tape.length_bytes
  obtain ⟨line, lines, within⟩ := moved.executed.consumed_bounds
  have inside : e.position + e.consumed ≤ d.tape.bytes.length := by omega
  have lands := moved.lands
  refine ⟨position, ⟨line, lines, inside⟩, moved.executed.isSearch_iff, moved.stream, ?_, ?_, lands, ?_⟩
  · rw [moved.stream, Execution.take_rewrite inside]
  · rw [moved.stream, Execution.drop_rewrite inside]
  · unfold Lands at lands
    split at lands <;> omega

/-- Only whole lines are ever cut out. -/
theorem Moves.length_mod {trace : Bool} {d next : Dispatch H} {e : Execution}
    (moved : d.Moves trace e next) :
    next.tape.bytes.length % 8 = d.tape.bytes.length % 8 := by
  have change := moved.transition
  obtain ⟨line, whole, inside⟩ := change.whole
  have shorter := Execution.length_rewrite line inside
  rw [← change.stream, Execution.kept] at shorter
  split at shorter <;> omega

theorem Stops.stream {trace : Bool} {d last : Dispatch H} {error : Option PassError}
    {es : List Execution} (stopped : d.Stops trace error es last) :
    last.tape.bytes = d.tape.bytes := by
  cases stopped with
  | unterminated executed flow missing => exact Tape.bytes_advance _ _
  | ended | misaligned | undecodable => rfl

/-- No pass ends with a search. -/
theorem Stops.searchless {trace : Bool} {d last : Dispatch H} {error : Option PassError}
    {es : List Execution} (stopped : d.Stops trace error es last) :
    ∀ e ∈ es, e.instruction.isSearch = false := by
  cases stopped with
  | unterminated executed flow missing =>
    simpa using executed.isSearch_eq_false (by simp [flow])
  | ended | misaligned | undecodable => simp

/-- A closing line is executed if the stream is whole lines from there on. -/
theorem executes_closing {d : Dispatch H} {blockEnd : BlockEnd} (trace : Bool)
    (stands : blockEnd.line.toList <+: d.tape.rest) (aligned : d.tape.rest.length % 8 = 0) :
    d.Executes trace ⟨d.tape.position, blockEnd.instruction, 8, .next⟩ := by
  obtain ⟨tail, split⟩ := stands
  refine ⟨aligned, ?_, rfl, blockEnd.execute_instruction _⟩
  rw [← split]
  exact blockEnd.decode_line_append tail

/-- No other instruction is executed where a closing line stands. -/
theorem Moves.eq_closing {trace : Bool} {d next : Dispatch H} {e : Execution} {blockEnd : BlockEnd}
    (moved : d.Moves trace e next) (stands : blockEnd.line.toList <+: d.tape.rest) :
    e = ⟨d.tape.position, blockEnd.instruction, 8, .next⟩ := by
  have closing := executes_closing trace stands moved.executed.aligned
  exact Option.some.inj (moved.executed.execution?_eq.symm.trans closing.execution?_eq)

end Dispatch

end LivePatch
