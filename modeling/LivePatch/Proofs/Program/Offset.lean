import LivePatch.Program
import LivePatch.Proofs.Dispatch.Transition

namespace LivePatch.Program

/-- The bytes of a program. -/
def stream (p : List Instruction) : Bytes :=
  p.flatMap Instruction.encode

/-- Where the instruction with this index begins. -/
def offset (p : List Instruction) (index : Nat) : Nat :=
  (stream (p.take index)).length

/-- Closing lines stand in the stream only where the program has the instruction. -/
def ClosesOnlyBlocks (p : List Instruction) : Prop :=
  ∀ blockEnd : BlockEnd, ∀ k, blockEnd.line.toList <+: (stream p).drop k →
    ∃ index, p[index]? = some blockEnd.instruction ∧ k = offset p index

theorem closesOnlyBlocks_iff (p : List Instruction) :
    ClosesOnlyBlocks p ↔ ∀ blockEnd ∈ [BlockEnd.terminator, .resetTimer],
      ∀ k < (stream p).length, blockEnd.line.toList <+: (stream p).drop k →
        ∃ index < p.length, p[index]? = some blockEnd.instruction ∧ k = offset p index := by
  constructor
  · intro only blockEnd _ k _ stands
    obtain ⟨index, there, same⟩ := only blockEnd k stands
    exact ⟨index, (List.getElem?_eq_some_iff.mp there).1, there, same⟩
  · intro only blockEnd k stands
    have length := stands.length_le
    rw [Vector.length_toList, List.length_drop] at length
    obtain ⟨index, _, there, same⟩ := only blockEnd blockEnd.mem_all k (by omega) stands
    exact ⟨index, there, same⟩

instance (p : List Instruction) : Decidable (ClosesOnlyBlocks p) :=
  decidable_of_iff _ (closesOnlyBlocks_iff p).symm

theorem stream_cons (i : Instruction) (p : List Instruction) :
    stream (i :: p) = i.encode ++ stream p :=
  List.flatMap_cons

theorem stream_append (p q : List Instruction) : stream (p ++ q) = stream p ++ stream q :=
  List.flatMap_append

theorem stream_take_append_drop (p : List Instruction) (index : Nat) :
    stream (p.take index) ++ stream (p.drop index) = stream p := by
  rw [← stream_append, List.take_append_drop]

theorem length_stream_mod {p : List Instruction} (keeps : ∀ i ∈ p, i.misfit? = none) :
    (stream p).length % 8 = 0 := by
  induction p with
  | nil => rfl
  | cons i p ih =>
    have head := Instruction.length_encode (keeps i List.mem_cons_self)
    have lines := i.encodedLength_mod
    have tail := ih fun j member => keeps j (List.mem_cons_of_mem i member)
    simp only [stream, List.flatMap_cons, List.length_append] at tail ⊢
    omega

theorem drop_offset (p : List Instruction) (index : Nat) :
    (stream p).drop (offset p index) = stream (p.drop index) := by
  rw [← stream_take_append_drop p index, offset, List.drop_left]

theorem take_offset (p : List Instruction) (index : Nat) :
    (stream p).take (offset p index) = stream (p.take index) := by
  rw [← stream_take_append_drop p index, offset, List.take_left]

theorem offset_add (p : List Instruction) (j l : Nat) :
    offset p (j + l) = offset p j + offset (p.drop j) l := by
  unfold offset
  rw [List.take_add, stream_append, List.length_append]

theorem drop_eq_cons {p : List Instruction} {index : Nat} {i : Instruction}
    (there : p[index]? = some i) : p.drop index = i :: p.drop (index + 1) := by
  obtain ⟨inside, rfl⟩ := List.getElem?_eq_some_iff.mp there
  exact List.drop_eq_getElem_cons inside

theorem offset_drop_one {p : List Instruction} {index : Nat} {i : Instruction}
    (there : p[index]? = some i) (kept : i.misfit? = none) :
    offset (p.drop index) 1 = i.encodedLength := by
  rw [drop_eq_cons there, ← Instruction.length_encode kept]
  simp [offset, stream]

theorem offset_mono {p : List Instruction} {j k : Nat} (upTo : j ≤ k) : offset p j ≤ offset p k := by
  obtain ⟨l, rfl⟩ := Nat.exists_eq_add_of_le upTo
  rw [offset_add]
  exact Nat.le_add_right _ _

/-- Instructions of which the first exists stand at different offsets. -/
theorem offset_lt {p : List Instruction} {j k : Nat} {i : Instruction} (there : p[j]? = some i)
    (kept : i.misfit? = none) (before : j < k) : offset p j < offset p k := by
  have line := i.eight_le_encodedLength
  have next := offset_add p j 1
  rw [offset_drop_one there kept] at next
  have later := offset_mono (p := p) (show j + 1 ≤ k from before)
  omega

theorem ClosesOnlyBlocks.drop {p : List Instruction} (only : ClosesOnlyBlocks p)
    (keeps : ∀ i ∈ p, i.misfit? = none) (j : Nat) : ClosesOnlyBlocks (p.drop j) := by
  intro blockEnd k stands
  rw [← drop_offset p j, List.drop_drop] at stands
  obtain ⟨index, there, same⟩ := only blockEnd _ stands
  have after : j ≤ index := by
    rcases Nat.lt_or_ge index j with before | after
    · have kept := keeps _ (List.mem_of_getElem? there)
      have := offset_lt there kept before
      omega
    · exact after
  obtain ⟨l, rfl⟩ := Nat.exists_eq_add_of_le after
  rw [offset_add] at same
  refine ⟨l, ?_, by omega⟩
  rw [List.getElem?_drop]
  exact there

theorem encode_closing (blockEnd : BlockEnd) :
    blockEnd.instruction.encode = blockEnd.line.toList := by
  cases blockEnd <;> rfl

/-- The first closing line of a stream is that of the first closing instruction. -/
theorem find?_stream {p : List Instruction} (only : ClosesOnlyBlocks p) (blockEnd : BlockEnd) :
    Stream.find? blockEnd.line.toList (stream p) =
      (p.findIdx? (· = blockEnd.instruction)).map (offset p) := by
  cases first : p.findIdx? (· = blockEnd.instruction) with
  | none =>
    rw [Option.map_none, Option.eq_none_iff_forall_ne_some]
    intro k found
    obtain ⟨index, there, _⟩ := only blockEnd k (Stream.find?_eq_some_iff.mp found).2.1
    have absent := List.findIdx?_eq_none_iff.mp first _ (List.mem_of_getElem? there)
    simp at absent
  | some index =>
    obtain ⟨inside, closes, none_before⟩ := List.findIdx?_eq_some_iff_getElem.mp first
    have there : p[index]? = some blockEnd.instruction := by
      rw [List.getElem?_eq_getElem inside]
      exact congrArg some (of_decide_eq_true closes)
    have stands : blockEnd.line.toList <+: (stream p).drop (offset p index) := by
      rw [drop_offset, drop_eq_cons there, stream, List.flatMap_cons, encode_closing]
      exact List.prefix_append _ _
    rw [Option.map_some]
    refine Stream.find?_eq_some_iff.mpr ⟨?_, stands, ?_⟩
    · have length := stands.length_le
      rw [Vector.length_toList, List.length_drop] at length
      omega
    · intro k before other
      obtain ⟨j, thereAlso, rfl⟩ := only blockEnd k other
      have earlier : j < index := by
        rcases Nat.lt_or_ge j index with earlier | later
        · exact earlier
        · have := offset_mono (p := p) later
          omega
      have differs := none_before j earlier
      obtain ⟨_, same⟩ := List.getElem?_eq_some_iff.mp thereAlso
      simp [same] at differs

end LivePatch.Program
