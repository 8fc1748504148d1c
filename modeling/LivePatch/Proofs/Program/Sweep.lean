import Mathlib.Algebra.GroupWithZero.Nat
import LivePatch.Proofs.Program.Walk

namespace LivePatch

theorem sweepFrom_of_error {bs : Bytes} {e : DecodeError} (occupied : bs ≠ [])
    (refused : decode bs = .error e) (before : Array Located) (offset : Nat) :
    sweepFrom before offset bs = ⟨before, some ⟨offset, bs, e⟩⟩ := by
  rw [sweepFrom, if_neg (by simpa using occupied)]
  split
  · rename_i found
    rw [refused] at found
    cases found
    rfl
  · rename_i found
    rw [refused] at found
    cases found

theorem sweepFrom_of_ok {bs : Bytes} {i : Instruction} {n : Nat} (decoded : decode bs = .ok (i, n))
    (before : Array Located) (offset : Nat) :
    sweepFrom before offset bs =
      sweepFrom (before.push ⟨offset, bs.take n, i⟩) (offset + n) (bs.drop n) := by
  have occupied : bs ≠ [] := by
    have inside := Instruction.consumed_of_decode decoded
    exact List.length_pos_iff.mp (by omega)
  rw [sweepFrom, if_neg (by simpa using occupied)]
  split
  · rename_i found
    rw [decoded] at found
    cases found
  · rename_i found
    rw [decoded] at found
    cases found
    rfl

/-- The instructions of a stream that begins at an offset, one after the other up to its end. -/
inductive Swept : Nat → Bytes → List Located → Prop
  | done {offset : Nat} : Swept offset [] []
  | found {offset n : Nat} {bs : Bytes} {i : Instruction} {ls : List Located}
      (decoded : decode bs = .ok (i, n)) (later : Swept (offset + n) (bs.drop n) ls) :
      Swept offset bs (⟨offset, bs.take n, i⟩ :: ls)

namespace Swept

variable {offset : Nat} {bs : Bytes} {ls : List Located}

theorem sweepFrom_eq (swept : Swept offset bs ls) (before : Array Located) :
    sweepFrom before offset bs = ⟨before ++ ls.toArray, none⟩ := by
  induction swept generalizing before with
  | done =>
    rw [sweepFrom]
    simp
  | @found offset n bs i ls decoded _ ih =>
    rw [sweepFrom_of_ok decoded, ih]
    simp

theorem of_sweepFrom {before all : Array Located} (swept : sweepFrom before offset bs = ⟨all, none⟩) :
    ∃ ls : List Located, all = before ++ ls.toArray ∧ Swept offset bs ls := by
  induction before, offset, bs using sweepFrom.induct with
  | case1 before offset bs empty =>
    rw [sweepFrom, if_pos empty] at swept
    cases swept
    obtain rfl := List.isEmpty_iff.mp empty
    exact ⟨[], by simp, .done⟩
  | case2 before offset bs occupied error refused =>
    rw [sweepFrom_of_error (by simpa using occupied) refused] at swept
    cases swept
  | case3 before offset bs occupied i n decoded ih =>
    rw [sweepFrom_of_ok decoded] at swept
    obtain ⟨ls, rfl, later⟩ := ih swept
    exact ⟨_ :: ls, by simp, .found decoded later⟩

theorem length_mod (swept : Swept offset bs ls) : bs.length % 8 = 0 := by
  induction swept with
  | done => rfl
  | found decoded _ ih =>
    have ⟨_, lines, inside⟩ := Instruction.consumed_of_decode decoded
    rw [List.length_drop] at ih
    omega

/-- Nothing is missing between the instructions, and nothing is read twice. -/
theorem flatMap_bytes (swept : Swept offset bs ls) : ls.flatMap (·.bytes) = bs := by
  induction swept with
  | done => rfl
  | @found _ n bs _ _ _ _ ih => rw [List.flatMap_cons, ih, List.take_append_drop]

/-- The bytes of each instruction are those it was read from. -/
theorem decoded (swept : Swept offset bs ls) :
    ∀ l ∈ ls, decode l.bytes = .ok (l.instruction, l.bytes.length) := by
  induction swept with
  | done => simp
  | @found offset n bs i ls decoded _ ih =>
    have size : (bs.take n).length = n := by
      have inside := Instruction.consumed_of_decode decoded
      rw [List.length_take]
      omega
    have alone := decode_take_append decoded []
    rw [List.append_nil] at alone
    simpa [size, alone] using ih

/-- Each instruction stands where those before it end. -/
theorem offset_eq (swept : Swept offset bs ls) {k : Nat} {l : Located} (there : ls[k]? = some l) :
    l.offset = offset + ((ls.take k).map (·.bytes.length)).sum := by
  induction swept generalizing k with
  | done => cases there
  | @found offset n bs i ls decoded _ ih =>
    cases k with
    | zero =>
      cases there
      rfl
    | succ k =>
      have inside := Instruction.consumed_of_decode decoded
      rw [ih there, List.take_succ_cons, List.map_cons, List.sum_cons, List.length_take]
      omega

theorem front {n : Nat} {front rest : Bytes} {i : Instruction}
    (decoded : decode (front ++ rest) = .ok (i, n)) (length : front.length = n)
    (later : Swept (offset + n) rest ls) :
    Swept offset (front ++ rest) (⟨offset, front, i⟩ :: ls) := by
  subst length
  have dropped : (front ++ rest).drop front.length = rest := List.drop_left
  rw [← dropped] at later
  have swept := Swept.found decoded later
  rwa [List.take_left] at swept

theorem sweep_eq (swept : Swept 0 bs ls) : sweep bs = ⟨ls.toArray, none⟩ := by
  rw [sweep, swept.sweepFrom_eq]
  simp

end Swept

/-- An instruction with its offset. -/
def Located.place (l : Located) : Nat × Instruction :=
  (l.offset, l.instruction)

theorem instructions_eq_ok_iff {bs : Bytes} {places : List (Nat × Instruction)} :
    instructions bs = .ok places ↔ ∃ ls, Swept 0 bs ls ∧ places = ls.map Located.place := by
  constructor
  · intro listed
    unfold instructions at listed
    split at listed
    · cases listed
    · dsimp only at listed
      split at listed
      · cases listed
      · rename_i complete
        have ends : sweepFrom #[] 0 bs = ⟨(sweep bs).found, none⟩ := by
          rw [← complete]
          rfl
        obtain ⟨ls, all, swept⟩ := Swept.of_sweepFrom ends
        cases listed
        exact ⟨ls, swept, by simp [all, Located.place]⟩
  · rintro ⟨ls, swept, rfl⟩
    rw [instructions, if_neg (by simp [swept.length_mod]), swept.sweep_eq]
    rfl

namespace Program

/-- What a sweep finds in the stream of a program that begins at an offset. -/
def located (offset : Nat) : List Instruction → List Located
  | [] => []
  | i :: p => ⟨offset, i.encode, i.normalized⟩ :: located (offset + i.encodedLength) p

theorem swept_stream {p : List Instruction} (keeps : ∀ i ∈ p, i.misfit? = none) (offset : Nat) :
    Swept offset (stream p) (located offset p) := by
  induction p generalizing offset with
  | nil => exact .done
  | cons i p ih =>
    have kept := keeps i List.mem_cons_self
    have later := ih (fun j member => keeps j (List.mem_cons_of_mem i member)) (offset + i.encodedLength)
    rw [stream_cons]
    exact .front (Instruction.decode_encode_append kept _) (Instruction.length_encode kept) later

theorem map_located (p : List Instruction) (offset : Nat) :
    (located offset p).map Located.place =
      p.mapIdx fun k i => (offset + ((p.take k).map Instruction.encodedLength).sum, i.normalized) := by
  induction p generalizing offset with
  | nil => rfl
  | cons i p ih =>
    rw [located, List.map_cons, ih, List.mapIdx_cons]
    simp [Located.place, Nat.add_assoc]

theorem length_stream {p : List Instruction} (keeps : ∀ i ∈ p, i.misfit? = none) :
    (stream p).length = (p.map Instruction.encodedLength).sum := by
  rw [stream, List.length_flatMap]
  exact congrArg List.sum (List.map_congr_left fun i member => Instruction.length_encode (keeps i member))

/-- The search for a broken limit ends at the first one, with what it breaks. -/
theorem findSome?_misfit {p : List Instruction} {i : Instruction} (member : i ∈ p)
    (breaks : i.misfit? ≠ none) (start : Nat) :
    ∃ k j reason, p[k]? = some j ∧ j.misfit? = some reason ∧
      (∀ l < k, ∀ j, p[l]? = some j → j.misfit? = none) ∧
      (p.zipIdx start).findSome? (fun (i, index) =>
        i.misfit?.map fun reason => (⟨index, i.opcode, reason⟩ : AssemblyError)) =
          some ⟨start + k, j.opcode, reason⟩ := by
  induction p generalizing start with
  | nil => cases member
  | cons head p ih =>
    rw [List.zipIdx_cons, List.findSome?_cons]
    cases first : head.misfit? with
    | some reason => exact ⟨0, head, reason, rfl, first, by simp, by simp [first]⟩
    | none =>
      have inside : i ∈ p := by
        rcases List.mem_cons.mp member with rfl | inside
        · exact absurd first breaks
        · exact inside
      obtain ⟨k, j, reason, there, broken, kept, found⟩ := ih inside (start + 1)
      refine ⟨k + 1, j, reason, there, broken, ?_, ?_⟩
      · intro l before other position
        cases l with
        | zero =>
          obtain rfl : head = other := by simpa using position
          exact first
        | succ l => exact kept l (by omega) other position
      · simpa [first, Nat.add_assoc, Nat.add_comm 1 k] using found

/-- A program is assembled into one stream, in which a sweep finds its instructions again, each where
those before it end. If an instruction breaks a limit there is no stream, and the error is that of the
first one. -/
theorem assemble_sweep (p : List Instruction) :
    ((∀ i ∈ p, i.misfit? = none) → ∃ code,
      assemble p = .ok code ∧ code = p.flatMap Instruction.encode ∧
      code.length = (p.map Instruction.encodedLength).sum ∧ code.length % 8 = 0 ∧
      instructions code = .ok (p.mapIdx fun k i =>
        (((p.take k).map Instruction.encodedLength).sum, i.normalized))) ∧
    ((¬ ∀ i ∈ p, i.misfit? = none) → ∃ index i reason,
      p[index]? = some i ∧ i.misfit? = some reason ∧
      (∀ k < index, ∀ j, p[k]? = some j → j.misfit? = none) ∧
      assemble p = .error ⟨index, i.opcode, reason⟩) := by
  constructor
  · intro keeps
    refine ⟨stream p, assemble_eq_stream keeps, rfl, length_stream keeps, length_stream_mod keeps, ?_⟩
    refine instructions_eq_ok_iff.mpr ⟨located 0 p, swept_stream keeps 0, ?_⟩
    rw [map_located]
    simp only [Nat.zero_add]
  · intro breaks
    obtain ⟨i, broken⟩ := Classical.not_forall.mp breaks
    obtain ⟨member, misfits⟩ := Classical.not_imp.mp broken
    obtain ⟨k, j, reason, there, why, kept, found⟩ := findSome?_misfit member misfits 0
    refine ⟨k, j, reason, there, why, kept, ?_⟩
    rw [assemble, firstMisfit?, found]
    simp only [Nat.zero_add]

open Instruction in
/-- Native code that reads like a closing line, before a call that holds arguments it does not supply;
and a program that breaks limits twice. -/
theorem assemble_sweep_closing_payload :
    ((∀ i ∈ [native terminatorLine.toList, call 0x80001000 3 4 #v[1, 9, 9, 9, 9, 9, 9, 9] 1, terminator],
      i.misfit? = none) ∧
      ∃ code, assemble
          [native terminatorLine.toList, call 0x80001000 3 4 #v[1, 9, 9, 9, 9, 9, 9, 9] 1, terminator] =
          .ok code ∧
        code.length = 40 ∧
        instructions code = .ok [(0, native terminatorLine.toList),
          (16, call 0x80001000 3 4 #v[1, 0, 0, 0, 0, 0, 0, 0] 1), (32, terminator)]) ∧
    (¬ ∀ i ∈ [noOperation, native [1], native [2, 3]], i.misfit? = none) ∧
      assemble [noOperation, native [1], native [2, 3]] = .error ⟨1, .native, .partialCodeLine 1⟩ := by
  have keeps : ∀ i ∈ [native terminatorLine.toList,
      call 0x80001000 3 4 #v[1, 9, 9, 9, 9, 9, 9, 9] 1, terminator], i.misfit? = none := by decide
  have breaks : ¬ ∀ i ∈ [noOperation, native [1], native [2, 3]], i.misfit? = none := by decide
  obtain ⟨code, assembled, _, length, _, listed⟩ := (assemble_sweep _).1 keeps
  refine ⟨⟨keeps, code, assembled, length, listed⟩, breaks, ?_⟩
  obtain ⟨index, i, reason, there, broken, kept, refused⟩ := (assemble_sweep _).2 breaks
  match index, there with
  | 0, rfl => cases broken
  | 1, rfl =>
    cases broken
    exact refused
  | 2, rfl => cases kept 1 (by decide) (native [1]) rfl

end Program

end LivePatch
