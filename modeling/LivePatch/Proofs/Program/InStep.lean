import LivePatch.Proofs.Program.Walk

namespace LivePatch

namespace Instruction

/-- An operand line of the instruction reads as a closing line. -/
def HidesClosing (i : Instruction) : Prop :=
  ∃ blockEnd : BlockEnd, ∃ k, 0 < k ∧ k % 8 = 0 ∧ blockEnd.line.toList <+: i.encode.drop k

theorem hidesClosing_iff (i : Instruction) :
    i.HidesClosing ↔ ∃ blockEnd ∈ [BlockEnd.terminator, .resetTimer], ∃ k < i.encode.length,
      0 < k ∧ k % 8 = 0 ∧ blockEnd.line.toList <+: i.encode.drop k := by
  constructor
  · rintro ⟨blockEnd, k, positive, onLine, stands⟩
    have length := stands.length_le
    rw [Vector.length_toList, List.length_drop] at length
    exact ⟨blockEnd, blockEnd.mem_all, k, by omega, positive, onLine, stands⟩
  · rintro ⟨blockEnd, _, k, _, found⟩
    exact ⟨blockEnd, k, found⟩

instance (i : Instruction) : Decidable i.HidesClosing :=
  decidable_of_iff _ i.hidesClosing_iff.symm

theorem not_hidesClosing_setPointer (address : UInt32) : ¬ (setPointer address).HidesClosing := by
  rintro ⟨blockEnd, k, positive, onLine, stands⟩
  have length := stands.length_le
  have line : (setPointer address).encode.length = 8 := length_encode rfl
  rw [Vector.length_toList, List.length_drop, line] at length
  omega

theorem encode_setPointer (address : UInt32) :
    (setPointer address).encode = (pointerLine address).toList := by
  rw [Stream.toList_pointerLine]
  rfl

end Instruction

namespace Program

/-- The program with the instruction at a byte offset turned into a pointer load. -/
def replaceAt (address : UInt32) : List Instruction → (position : Nat) → List Instruction
  | [], _ => []
  | i :: p, position =>
    if position = 0 then .setPointer address :: p
    else i :: replaceAt address p (position - i.encode.length)

theorem offset_cons (i : Instruction) (p : List Instruction) (index : Nat) :
    offset (i :: p) (index + 1) = i.encode.length + offset p index := by
  simp [offset, stream]

theorem replaceAt_offset {p : List Instruction} {index : Nat} {i : Instruction} (address : UInt32)
    (keeps : ∀ i ∈ p, i.misfit? = none) (there : p[index]? = some i) :
    replaceAt address p (offset p index) = p.set index (.setPointer address) := by
  induction p generalizing index with
  | nil => cases there
  | cons j p ih =>
    cases index with
    | zero => rfl
    | succ index =>
      have kept := keeps j List.mem_cons_self
      have line := j.eight_le_encodedLength
      have later : offset (j :: p) (index + 1) ≠ 0 := by
        rw [offset_cons, Instruction.length_encode kept]
        omega
      have rest := ih (fun i member => keeps i (List.mem_cons_of_mem j member)) there
      rw [replaceAt, if_neg later, offset_cons, Nat.add_sub_cancel_left, rest, List.set_cons_succ]

theorem mem_replaceAt {address : UInt32} {p : List Instruction} {position : Nat} {i : Instruction}
    (member : i ∈ replaceAt address p position) : i = .setPointer address ∨ i ∈ p := by
  induction p generalizing position with
  | nil => cases member
  | cons j p ih =>
    unfold replaceAt at member
    split at member
    · rcases List.mem_cons.mp member with loads | old
      · exact .inl loads
      · exact .inr (List.mem_cons_of_mem j old)
    · rcases List.mem_cons.mp member with rfl | later
      · exact .inr List.mem_cons_self
      · rcases ih later with loads | old
        · exact .inl loads
        · exact .inr (List.mem_cons_of_mem j old)

end Program

open Program

/-- What `e` makes of the program: a search turns into a pointer load. -/
def Execution.revise (e : Execution) (p : List Instruction) : List Instruction :=
  match e.flow with
  | .replace address => replaceAt address p e.position
  | .next | .skipTo _ => p

namespace Program

/-- The program as the executions `es` have left it. -/
def current (p : List Instruction) (es : List Execution) : List Instruction :=
  es.foldl (fun p e => e.revise p) p

theorem current_append (p : List Instruction) (es : List Execution) (e : Execution) :
    current p (es ++ [e]) = e.revise (current p es) :=
  List.foldl_append

theorem mem_revise {e : Execution} {p : List Instruction} {i : Instruction} (member : i ∈ e.revise p) :
    (∃ address, i = .setPointer address) ∨ i ∈ p := by
  unfold Execution.revise at member
  split at member
  · rcases mem_replaceAt member with loads | old
    · exact .inl ⟨_, loads⟩
    · exact .inr old
  · exact .inr member
  · exact .inr member

theorem mem_current {p : List Instruction} {es : List Execution} {i : Instruction}
    (member : i ∈ current p es) : (∃ address, i = .setPointer address) ∨ i ∈ p := by
  induction es generalizing p with
  | nil => exact .inr member
  | cons e es ih =>
    rcases ih member with loads | revised
    · exact .inl loads
    · exact mem_revise revised

theorem current_keeps {p : List Instruction} (keeps : ∀ i ∈ p, i.misfit? = none)
    (es : List Execution) : ∀ i ∈ current p es, i.misfit? = none := by
  intro i member
  rcases mem_current member with ⟨address, rfl⟩ | old
  · rfl
  · exact keeps i old

/-- A closing line that stands on a line of the stream is an instruction or an operand line. -/
theorem offset_or_hides {p : List Instruction} {blockEnd : BlockEnd} {k : Nat}
    (keeps : ∀ i ∈ p, i.misfit? = none) (stands : blockEnd.line.toList <+: (stream p).drop k)
    (onLine : k % 8 = 0) : (∃ index, k = offset p index) ∨ ∃ i ∈ p, i.HidesClosing := by
  induction p generalizing k with
  | nil =>
    have length := stands.length_le
    simp [stream] at length
  | cons i p ih =>
    have kept := keeps i List.mem_cons_self
    have size := Instruction.length_encode kept
    have lines := i.encodedLength_mod
    rw [stream_cons] at stands
    by_cases inside : k < i.encode.length
    · by_cases first : k = 0
      · exact .inl ⟨0, first⟩
      · -- The line lies within the encoding, which is made of whole lines.
        rw [List.drop_append_of_le_length (Nat.le_of_lt inside)] at stands
        have operand : blockEnd.line.toList <+: i.encode.drop k := by
          refine List.prefix_of_prefix_length_le stands (List.prefix_append _ _) ?_
          rw [Vector.length_toList, List.length_drop]
          omega
        exact .inr ⟨i, List.mem_cons_self, blockEnd, k, by omega, onLine, operand⟩
    · obtain ⟨l, rfl⟩ := Nat.exists_eq_add_of_le (Nat.le_of_not_lt inside)
      rw [← List.drop_drop, List.drop_left] at stands
      have further := ih (fun j member => keeps j (List.mem_cons_of_mem i member)) stands (by omega)
      rcases further with ⟨index, rfl⟩ | ⟨j, member, hides⟩
      · exact .inl ⟨index + 1, (offset_cons i p index).symm⟩
      · exact .inr ⟨j, List.mem_cons_of_mem i member, hides⟩

theorem stream_set {p : List Instruction} {index : Nat} (inside : index < p.length)
    (j : Instruction) :
    stream (p.set index j) = stream (p.take index) ++ j.encode ++ stream (p.drop (index + 1)) := by
  rw [List.set_eq_take_append_cons_drop, if_pos inside, stream_append, stream_cons,
    List.append_assoc]

/-- An execution does to the stream what it does to the program. -/
theorem stream_revise {p : List Instruction} {index : Nat} {i : Instruction} {e : Execution}
    (keeps : ∀ i ∈ p, i.misfit? = none) (there : p[index]? = some i)
    (position : e.position = offset p index) (consumed : e.consumed = i.encodedLength) :
    stream (e.revise p) = e.rewrite (stream p) := by
  cases flow : e.flow with
  | next | skipTo blockEnd => simp only [Execution.revise, Execution.rewrite, flow]
  | replace address =>
    have inside := (List.getElem?_eq_some_iff.mp there).1
    have next : offset p index + i.encodedLength = offset p (index + 1) := by
      rw [offset_add, offset_drop_one there (keeps i (List.mem_of_getElem? there))]
    simp only [Execution.revise, Execution.rewrite, flow, position, consumed]
    rw [replaceAt_offset address keeps there, stream_set inside, Instruction.encode_setPointer,
      take_offset, next, drop_offset]

end Program

theorem Tape.at_of_position {t : Tape} {p : List Instruction} {index : Nat}
    (bytes : t.bytes = stream p) (position : t.position = offset p index) : t.At p index := by
  constructor
  · rw [← t.take_position, bytes, position, take_offset]
  · rw [← t.drop_position, bytes, position, drop_offset]

namespace Dispatch

variable {H : Type}

/-- The last skip has ended on a line that reads as a closing line and is no instruction of the
program. -/
structure Astray (p : List Instruction) (es : List Execution) (d : Dispatch H) : Prop where
  skipped : ∃ e blockEnd, es.getLast? = some e ∧ e.flow = .skipTo blockEnd ∧
    blockEnd.line.toList <+: d.tape.rest
  onLine : d.tape.position % 8 = 0
  operand : ∀ index, d.tape.position ≠ offset p index

theorem Astray.hides {p : List Instruction} {es : List Execution} {d : Dispatch H}
    (astray : d.Astray p es) (keeps : ∀ i ∈ p, i.misfit? = none) (bytes : d.tape.bytes = stream p) :
    ∃ i ∈ p, i.HidesClosing := by
  obtain ⟨e, blockEnd, _, _, stands⟩ := astray.skipped
  rw [← d.tape.drop_position, bytes] at stands
  rcases offset_or_hides keeps stands astray.onLine with ⟨index, start⟩ | hides
  · exact absurd start (astray.operand index)
  · exact hides

variable [Host H]

/-- The loop stands before the instruction of the program with this index and executes it, or at the
end. -/
structure InStep (trace : Bool) (p : List Instruction) (d : Dispatch H) (index : Nat) : Prop where
  place : d.tape.At p index
  executes : (d.execution? trace).map (·.instruction) = p[index]?.map Instruction.normalized

/-- The loop stands inside a line, executes nothing and stops. -/
structure OffLine (trace : Bool) (d : Dispatch H) : Prop where
  offLine : d.tape.position % 8 ≠ 0
  idle : d.execution? trace = none
  stops : d.step trace = .failed (.misalignedLength d.tape.position d.tape.rest.length) d

theorem inStep_of_at {p : List Instruction} {index : Nat} {d : Dispatch H} (trace : Bool)
    (keeps : ∀ i ∈ p, i.misfit? = none) (place : d.tape.At p index) : d.InStep trace p index := by
  refine ⟨place, ?_⟩
  cases there : p[index]? with
  | some i =>
    rw [(executes_at trace keeps place there).execution?_eq]
    rfl
  | none =>
    rw [execution?, place.rest_eq_nil there]
    rfl

theorem offLine_of_position {p : List Instruction} {d : Dispatch H} (trace : Bool)
    (keeps : ∀ i ∈ p, i.misfit? = none) (bytes : d.tape.bytes = stream p)
    (off : d.tape.position % 8 ≠ 0) : d.OffLine trace := by
  have lines := length_stream_mod keeps
  have total := d.tape.length_bytes
  rw [bytes] at total
  have broken : d.tape.rest.length % 8 ≠ 0 := by omega
  exact ⟨off, by rw [execution?, if_neg broken], (Stops.misaligned broken).step_eq⟩

/-- What the loop executes before an instruction of the program. -/
theorem Executes.eq_of_at {p : List Instruction} {index : Nat} {d : Dispatch H} {trace : Bool}
    {e : Execution} (executed : d.Executes trace e) (keeps : ∀ i ∈ p, i.misfit? = none)
    (place : d.tape.At p index) :
    ∃ i, p[index]? = some i ∧ e.instruction = i.normalized ∧ e.consumed = i.encodedLength := by
  cases there : p[index]? with
  | none => exact absurd (place.rest_eq_nil there) executed.nonempty
  | some i =>
    have executes := executes_at trace keeps place there
    have same := Option.some.inj (executed.execution?_eq.symm.trans executes.execution?_eq)
    exact ⟨i, rfl, by rw [same], by rw [same]⟩

/-- One move from the start of an instruction: to the start of an instruction again, off the lines or
to an operand line that reads as a closing line. -/
theorem move_from_start {p : List Instruction} {index : Nat} {d next : Dispatch H} {trace : Bool}
    {e : Execution} (keeps : ∀ i ∈ p, i.misfit? = none) (place : d.tape.At p index)
    (moved : d.Moves trace e next) (es : List Execution) :
    next.tape.bytes = stream (e.revise p) ∧
      ((∃ onward, next.tape.At (e.revise p) onward) ∨ next.tape.position % 8 ≠ 0 ∨
        next.Astray (e.revise p) (es ++ [e])) := by
  obtain ⟨i, there, _, consumed⟩ := moved.executed.eq_of_at keeps place
  have kept := keeps i (List.mem_of_getElem? there)
  have position : e.position = offset p index := moved.executed.position_eq.trans place.position
  have bytes : next.tape.bytes = stream (e.revise p) := by
    rw [moved.stream, place.bytes, stream_revise keeps there position consumed]
  have lands := moved.lands
  refine ⟨bytes, ?_⟩
  cases flow : e.flow with
  | next =>
    simp only [Lands, flow] at lands
    simp only [Execution.revise, flow] at bytes ⊢
    have onward : next.tape.position = offset p (index + 1) := by
      rw [lands, offset_add, offset_drop_one there kept, position, consumed]
    exact .inl ⟨index + 1, Tape.at_of_position bytes onward⟩
  | replace address =>
    simp only [Lands, flow] at lands
    simp only [Execution.revise, flow, position] at bytes ⊢
    rw [replaceAt_offset address keeps there] at bytes ⊢
    have same : next.tape.position = offset (p.set index (.setPointer address)) index := by
      rw [lands, position, offset, offset, List.take_set_of_le (Nat.le_refl index)]
    exact .inl ⟨index, Tape.at_of_position bytes same⟩
  | skipTo blockEnd =>
    simp only [Lands, flow] at lands
    simp only [Execution.revise, flow] at bytes ⊢
    by_cases onLine : next.tape.position % 8 = 0
    · by_cases start : ∃ onward, next.tape.position = offset p onward
      · obtain ⟨onward, same⟩ := start
        exact .inl ⟨onward, Tape.at_of_position bytes same⟩
      · refine .inr (.inr ⟨⟨e, blockEnd, List.getLast?_concat, flow, lands.2.2⟩, onLine, ?_⟩)
        exact fun index same => start ⟨index, same⟩
    · exact .inr (.inl onLine)

/-- The loop keeps in step with the program up to the first skip that goes astray. -/
theorem Reaches.inStep_or_offLine {p : List Instruction} {trace : Bool} {m : Machine H}
    (keeps : ∀ i ∈ p, i.misfit? = none)
    (clear : ∀ es d, Reaches trace (m.opening (stream p)) es d → d.tape.bytes = stream (current p es) →
      ¬ d.Astray (current p es) es) {es : List Execution} {d : Dispatch H}
    (reach : Reaches trace (m.opening (stream p)) es d) :
    (∃ index, d.InStep trace (current p es) index) ∨ d.OffLine trace := by
  induction reach with
  | start =>
    have place : (m.opening (stream p)).tape.At p 0 := ⟨rfl, rfl⟩
    exact .inl ⟨0, inStep_of_at trace keeps place⟩
  | @move es d e next reach executed step ih =>
    rcases ih with ⟨index, inStep⟩ | offLine
    · have moved := moves_iff.mpr ⟨executed, step⟩
      have valid := current_keeps keeps es
      have further := current_keeps keeps (es ++ [e])
      obtain ⟨bytes, landed⟩ := move_from_start valid inStep.place moved es
      rw [← current_append] at bytes landed
      rcases landed with ⟨onward, place⟩ | off | astray
      · exact .inl ⟨onward, inStep_of_at trace further place⟩
      · exact .inr (offLine_of_position trace further bytes off)
      · exact absurd astray (clear _ _ (reach.move executed step) bytes)
    · rw [offLine.stops] at step
      cases step

theorem InStep.not_undecodable {p : List Instruction} {index : Nat} {d : Dispatch H} {trace : Bool}
    {cause : DecodeError} (inStep : d.InStep trace p index) (nonempty : d.tape.rest ≠ [])
    (undecodable : decode d.tape.rest = .error cause) : False := by
  have nothing : d.execution? trace = none := by
    simp only [execution?, undecodable, ite_self]
  have executes := inStep.executes
  rw [nothing, Option.map_none, eq_comm, Option.map_eq_none_iff] at executes
  exact nonempty (inStep.place.rest_eq_nil executes)

/-- A loop that keeps in step can decode whatever it comes to. -/
theorem run_ne_decode {p : List Instruction} {trace : Bool} {start : Dispatch H}
    (inStep : ∀ es d, Reaches trace start es d →
      (∃ index, d.InStep trace (current p es) index) ∨ d.OffLine trace)
    (position : Nat) (cause : DecodeError) : (start.run trace).1 ≠ some (.decode position cause) := by
  intro failed
  obtain ⟨before, final, stopping, reach, stopped, _⟩ := run_reaches_stop trace start
  rw [failed] at stopped
  cases stopped with
  | undecodable aligned nonempty decoded =>
    rcases inStep _ _ reach with ⟨index, there⟩ | offLine
    · exact there.not_undecodable nonempty decoded
    · have stops := offLine.stops
      rw [(Stops.undecodable aligned nonempty decoded).step_eq] at stops
      cases stops

end Dispatch

namespace Machine

/-- A run over the stream of a program executes only what the program then is, and stops where it
leaves the lines, if and only if none of its skips ends on an operand line that reads as a closing
line. Then it never meets what it cannot decode. Programs whose operands hold no such line are safe. -/
theorem run_assembled_in_step {H : Type} [Host H] (m : Machine H) (config : Config)
    {p : List Instruction} {code : Bytes} (assembled : assemble p = .ok code) :
    let reached := Dispatch.Reaches config.trace ((m.gated config).opening code)
    let inStep := ∀ es d, reached es d →
      (∃ index, d.InStep config.trace (current p es) index) ∨ d.OffLine config.trace
    (inStep ↔ ∀ es d, reached es d → ¬ d.Astray (current p es) es) ∧
      (inStep → ∀ position cause, (m.run config code).outcome ≠ .error (.decode position cause)) ∧
      ((∀ i ∈ p, ¬ i.HidesClosing) → inStep) := by
  obtain ⟨keeps, rfl⟩ := assemble_eq_ok assembled
  intro reached inStep
  refine ⟨⟨?_, ?_⟩, ?_, ?_⟩
  · intro kept es d reach astray
    rcases kept es d reach with ⟨index, there⟩ | offLine
    · exact astray.operand index there.place.position
    · exact offLine.offLine astray.onLine
  · intro clear es d reach
    exact reach.inStep_or_offLine keeps fun es d reach _ => clear es d reach
  · intro kept position cause failed
    exact Dispatch.run_ne_decode kept position cause (run_eq_of_outcome_error failed)
  · intro clear es d reach
    refine reach.inStep_or_offLine keeps fun es d _ bytes astray => ?_
    obtain ⟨i, member, hides⟩ := astray.hides (current_keeps keeps es) bytes
    rcases mem_current member with ⟨address, rfl⟩ | old
    · exact Instruction.not_hidesClosing_setPointer address hides
    · exact clear i old hides

/-- A search, and a string with a terminator line inside it that does not begin on a line: the run stops
in the middle of the string. -/
theorem run_assembled_in_step_string :
    let m : Machine Memory := { host := {} }
    let p := [Instruction.search [] 0 1 1, .test .equal ⟨.absolute, 16⟩ .word 1 0,
      .writeString ⟨.absolute, 32⟩ ([1, 2, 3] ++ terminatorLine.toList)]
    (∀ i ∈ p, ¬ i.HidesClosing) ∧ assemble p = .ok (stream p) ∧
      (m.run {} (stream p)).outcome = .error (.misalignedLength 35 13) ∧
      (∀ es d, Dispatch.Reaches false ((m.gated {}).opening (stream p)) es d →
        (∃ index, d.InStep false (current p es) index) ∨ d.OffLine false) := by
  intro m p
  have clear : ∀ i ∈ p, ¬ i.HidesClosing := by decide
  have assembled : assemble p = .ok (stream p) := rfl
  have failed : (m.run {} (stream p)).outcome = .error (.misalignedLength 35 13) := by decide +kernel
  exact ⟨clear, assembled, failed, (m.run_assembled_in_step {} assembled).2.2 clear⟩

/-- A test that fails in front of native code whose first line reads as a terminator: that line is
executed, and the next one cannot be decoded. -/
theorem run_assembled_astray :
    let m : Machine Memory := { host := {} }
    let p := [Instruction.test .equal ⟨.absolute, 0x80000000⟩ .word 1 0,
      .native (terminatorLine.toList ++ [0xEE, 0, 0, 0, 0, 0, 0, 0])]
    assemble p = .ok (stream p) ∧
      (m.executions {} (stream p)).map (fun e => (e.position, e.instruction)) =
        [(0, .test .equal ⟨.absolute, 0x80000000⟩ .word 1 0), (24, .terminator)] ∧
      (∀ index, offset p index ≠ 24) ∧
      (m.run {} (stream p)).outcome = .error (.decode 32 (.unknownOpcode 0xEE)) := by
  intro m p
  refine ⟨rfl, by decide +kernel, ?_, by decide +kernel⟩
  intro index
  match index with
  | 0 | 1 => decide
  | index + 2 =>
    have whole : offset p 2 = 40 := by decide
    have past := offset_mono (p := p) (Nat.le_add_left 2 index)
    omega

end Machine

end LivePatch
