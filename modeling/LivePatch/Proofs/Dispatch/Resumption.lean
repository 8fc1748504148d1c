import LivePatch.Machine.Snapshot
import LivePatch.Proofs.Dispatch.Passes
import LivePatch.Proofs.Wire.Reading

namespace LivePatch

theorem length_le32 (w : UInt32) : (le32 w).length = 4 := rfl

theorem le32_ofLittleEndian {bs : Bytes} (length : bs.length = 4) :
    le32 (UInt32.ofNat (ofLittleEndian bs)) = bs := by
  have reversed := be32_ofBigEndian (List.length_reverse.trans length)
  rw [ofBigEndian, List.reverse_reverse] at reversed
  exact List.reverse_inj.mp reversed

theorem length_flatMap_le32 (ws : List UInt32) : (ws.flatMap le32).length = 4 * ws.length := by
  induction ws with
  | nil => rfl
  | cons w ws ih =>
    rw [List.flatMap_cons, List.length_append, length_le32, ih, List.length_cons]
    omega

namespace State

/-- The words of a snapshot, in order. -/
def words (s : State) : List UInt32 :=
  [s.pointer, s.delay, s.count] ++ s.registers.integer.toList ++ s.registers.float.toList

theorem length_words (s : State) : s.words.length = 19 := by
  simp [words]

theorem length_toBytes (s : State) : s.toBytes.length = 77 := by
  change (s.words.flatMap le32).length + 1 = 77
  rw [length_flatMap_le32, length_words]

theorem wordAt_flatMap_le32 {ws : List UInt32} {k : Nat} {w : UInt32} (there : ws[k]? = some w)
    (tail : Bytes) : wordAt (ws.flatMap le32 ++ tail) k = w := by
  induction ws generalizing k with
  | nil => cases there
  | cons v ws ih =>
    rw [List.flatMap_cons, List.append_assoc]
    cases k with
    | zero =>
      cases there
      rw [wordAt, Nat.mul_zero, List.drop_zero, List.take_left' (length_le32 w), ofLittleEndian_le32]
    | succ k =>
      have next : 4 * (k + 1) = (le32 v).length + 4 * k := by
        rw [length_le32]
        omega
      rw [wordAt, next, List.drop_length_add_append]
      exact ih there

/-- The words that are read from some bytes are written as these bytes. -/
theorem flatMap_le32_wordAt {bs : Bytes} {n : Nat} (enough : 4 * n ≤ bs.length) :
    ((List.range n).map (wordAt bs)).flatMap le32 = bs.take (4 * n) := by
  induction n with
  | zero => rfl
  | succ n ih =>
    have length : ((bs.drop (4 * n)).take 4).length = 4 := by
      rw [List.length_take, List.length_drop]
      omega
    rw [List.range_succ, List.map_append, List.flatMap_append, ih (by omega), List.map_singleton,
      List.flatMap_singleton, wordAt, le32_ofLittleEndian length, ← List.take_add]
    rfl

theorem getElem?_words_integer (s : State) (i : Fin 8) :
    s.words[3 + i.val]? = some (s.registers.integer.get i) := by
  simp [words, Nat.add_comm 3 i.val, List.getElem?_append, Vector.get]

theorem getElem?_words_float (s : State) (i : Fin 8) :
    s.words[11 + i.val]? = some (s.registers.float.get i) := by
  simp [words, Nat.add_comm 11 i.val, List.getElem?_append, Vector.get]

theorem flagByte_le (flag : Bool) : ¬ 1 < (if flag then (1 : UInt8) else 0) := by
  cases flag <;> decide

theorem flagByte_eq_one (flag : Bool) : decide ((if flag then (1 : UInt8) else 0) = 1) = flag := by
  cases flag <;> rfl

theorem flagByte_of_le {byte : UInt8} (low : ¬ 1 < byte) :
    (if decide (byte = 1) then (1 : UInt8) else 0) = byte := by
  by_cases one : byte = 1
  · subst one
    rfl
  · have zero : byte.toNat = 0 := by
      have notOne : byte.toNat ≠ 1 := fun same => one (UInt8.toNat_inj.mp same)
      have atMost : ¬ 1 < byte.toNat := low
      omega
    rw [← UInt8.toNat_inj, zero]
    simp [one]

theorem ofBytes_toBytes_append (s : State) (tail : Bytes) : ofBytes (s.toBytes ++ tail) = .ok s := by
  have read {k : Nat} {w : UInt32} (there : s.words[k]? = some w) :
      wordAt (s.words.flatMap le32 ++ tail) k = w :=
    wordAt_flatMap_le32 there tail
  have enough : fits 76 (s.words.flatMap le32 ++ tail) = true := by
    rw [fits_iff, List.length_append, length_flatMap_le32, length_words]
    omega
  have integer : (Vector.ofFn fun i : Fin 8 => wordAt (s.words.flatMap le32 ++ tail) (3 + i.val)) =
      s.registers.integer := by
    apply Vector.ext
    intro i bound
    rw [Vector.getElem_ofFn]
    exact read (s.getElem?_words_integer ⟨i, bound⟩)
  have float : (Vector.ofFn fun i : Fin 8 => wordAt (s.words.flatMap le32 ++ tail) (11 + i.val)) =
      s.registers.float := by
    apply Vector.ext
    intro i bound
    rw [Vector.getElem_ofFn]
    exact read (s.getElem?_words_float ⟨i, bound⟩)
  have bytes : s.toBytes ++ tail = (if s.flag then 1 else 0) :: (s.words.flatMap le32 ++ tail) := rfl
  rw [bytes, ofBytes, integer, float, read (k := 0) rfl, read (k := 1) rfl, read (k := 2) rfl]
  rw [if_neg (flagByte_le s.flag), if_pos enough, flagByte_eq_one]

theorem toBytes_of_ofBytes {bs : Bytes} {s : State} (read : ofBytes bs = .ok s) :
    s.toBytes = bs.take 77 := by
  cases bs with
  | nil => cases read
  | cons flag bs =>
    simp only [ofBytes] at read
    split at read
    · cases read
    · rename_i low
      split at read
      · rename_i enough
        rw [fits_iff] at enough
        have written := flatMap_le32_wordAt (n := 19) enough
        cases read
        have restored : (wordAt bs 0 :: wordAt bs 1 :: wordAt bs 2 ::
            (Vector.ofFn fun i : Fin 8 => wordAt bs (3 + i.val)).toList ++
            (Vector.ofFn fun i : Fin 8 => wordAt bs (11 + i.val)).toList) =
            (List.range 19).map (wordAt bs) := rfl
        rw [List.take_succ_cons, ← written, ← restored]
        exact congrArg (· :: _) (flagByte_of_le low)
      · cases read

theorem exists_ofBytes_iff (bs : Bytes) :
    (∃ s, ofBytes bs = .ok s) ↔ 77 ≤ bs.length ∧ (bs[0]? = some 0 ∨ bs[0]? = some 1) := by
  constructor
  · rintro ⟨s, read⟩
    have bytes := (List.take_append_drop 77 bs).symm
    rw [← toBytes_of_ofBytes read] at bytes
    rw [bytes]
    refine ⟨by simp [length_toBytes], ?_⟩
    cases flag : s.flag <;> simp [toBytes, flag]
  · rintro ⟨enough, flag⟩
    cases bs with
    | nil => cases enough
    | cons byte bs =>
      have low : ¬ 1 < byte := by
        rcases flag with zero | one
        · cases zero
          decide
        · cases one
          decide
      have rest : fits 76 bs = true := (fits_iff 76 bs).mpr (Nat.le_of_succ_le_succ enough)
      rw [ofBytes, if_neg low, if_pos rest]
      exact ⟨_, rfl⟩

/-- A wrong flag is found before the bytes are seen to be too few. -/
theorem ofBytes_eq_invalidFlag_iff (bs : Bytes) (byte : UInt8) :
    ofBytes bs = .error (.invalidFlag byte) ↔ 1 < byte ∧ bs[0]? = some byte := by
  cases bs with
  | nil => simp [ofBytes]
  | cons flag bs =>
    simp only [ofBytes, List.getElem?_cons_zero, Option.some.injEq]
    split
    · rename_i high
      simp only [Except.error.injEq, SnapshotError.invalidFlag.injEq]
      exact ⟨fun same => ⟨same ▸ high, same⟩, And.right⟩
    · rename_i low
      have other : ¬ (1 < byte ∧ flag = byte) := fun ⟨high, same⟩ => low (same ▸ high)
      split <;> simp [other]

theorem ofBytes_eq_unexpectedEnd_iff (bs : Bytes) :
    ofBytes bs = .error .unexpectedEnd ↔
      bs.length < 77 ∧ ¬ ∃ byte : UInt8, 1 < byte ∧ bs[0]? = some byte := by
  cases bs with
  | nil => simp [ofBytes]
  | cons flag bs =>
    have found : (∃ byte : UInt8, 1 < byte ∧ (flag :: bs)[0]? = some byte) ↔ 1 < flag := by
      simp
    have enough : fits 76 bs = true ↔ ¬ (flag :: bs).length < 77 := by
      rw [fits_iff, List.length_cons]
      omega
    rw [ofBytes, found]
    split
    · rename_i high
      simp [high]
    · rename_i low
      split
      · rename_i whole
        exact ⟨nofun, fun short => absurd short.1 (enough.mp whole)⟩
      · rename_i short
        exact ⟨fun _ => ⟨Decidable.not_not.mp (mt enough.mpr short), low⟩, fun _ => rfl⟩

end State

variable {H : Type} [Host H]

namespace Machine

/-- A state is read back bit for bit from its 77 bytes, whatever follows; what is read is a flag of zero
or one and nineteen words, and nothing else is. A machine that is restored after some passes goes on as
the one that made them, whether they all completed or not. -/
theorem snapshot_resumes :
    (∀ (s : State) (tail : Bytes),
        s.toBytes.length = 77 ∧ State.ofBytes (s.toBytes ++ tail) = .ok s) ∧
      (∀ bs : Bytes,
        ((∃ s, State.ofBytes bs = .ok s) ↔ 77 ≤ bs.length ∧ (bs[0]? = some 0 ∨ bs[0]? = some 1)) ∧
        (∀ s, State.ofBytes bs = .ok s → s.toBytes = bs.take 77) ∧
        (∀ byte, State.ofBytes bs = .error (.invalidFlag byte) ↔ 1 < byte ∧ bs[0]? = some byte) ∧
        (State.ofBytes bs = .error .unexpectedEnd ↔
          bs.length < 77 ∧ ¬ ∃ byte : UInt8, 1 < byte ∧ bs[0]? = some byte)) ∧
      ∀ (m : Machine H) (config : Config) (code : Bytes) (passes further : Nat)
        (log : Array Event),
        let before := m.runPasses config passes code
        ∃ state, State.ofBytes before.machine.state.toBytes = .ok state ∧
          let restored : Machine H := { host := before.machine.host, log, state }
          let resumed := restored.runPasses config further before.code
          let continued := before.machine.runPasses config further before.code
          resumed.outcome = continued.outcome ∧ resumed.code = continued.code ∧
            resumed.machine.state = continued.machine.state ∧
            resumed.machine.host = continued.machine.host := by
  refine ⟨fun s tail => ⟨s.length_toBytes, s.ofBytes_toBytes_append tail⟩, fun bs => ?_, ?_⟩
  · exact ⟨State.exists_ofBytes_iff bs, fun s => State.toBytes_of_ofBytes,
      State.ofBytes_eq_invalidFlag_iff bs, State.ofBytes_eq_unexpectedEnd_iff bs⟩
  · intro m config code passes further log before
    have read := before.machine.state.ofBytes_toBytes_append []
    rw [List.append_nil] at read
    refine ⟨_, read, ?_⟩
    have alike : Machine.Alike Eq { before.machine with log } before.machine := ⟨rfl, rfl⟩
    obtain ⟨outcome, bytes, after⟩ := runPassesFrom_alike alike config #[] further before.code
    exact ⟨outcome, bytes, after.state, after.host⟩

/-- A state whose float registers hold no numbers, with a byte more and too few of them; and a timer block
that is skipped on the pass before the snapshot and entered on the pass after it, where the counter has
come round to zero. -/
theorem snapshot_resumes_midway :
    let s : State := { flag := true, pointer := 0x80, delay := 3, count := 0xFFFFFFFF,
                       registers := { float := .replicate 8 0x7FC00001 } }
    let m : Machine Memory := { host := {}, state := s }
    let code := (Instruction.timer 2).encode ++ (Instruction.write ⟨.absolute, 4⟩ .word 9).encode ++
      resetTimerLine.toList
    let before := m.runPasses {} 1 code
    (∃ r, State.ofBytes (s.toBytes ++ [9]) = .ok r ∧ r.toBytes = (s.toBytes ++ [9]).take 77) ∧
      State.ofBytes [2, 9] = .error (.invalidFlag 2) ∧
      State.ofBytes [1, 9] = .error .unexpectedEnd ∧
      before.outcome = .ok #[⟨2, 1, 32, 0⟩] ∧
      ∃ state, State.ofBytes before.machine.state.toBytes = .ok state ∧
        let restored : Machine Memory := { host := before.machine.host, state }
        (restored.runPasses {} 1 before.code).outcome = .ok #[⟨3, 0, 32, 1⟩] := by
  intro s m code before
  obtain ⟨written, reads, resumes⟩ := snapshot_resumes (H := Memory)
  have read := (written s [9]).2
  have first : (m.run {} code).outcome = .ok ⟨2, 1, 32, 0⟩ := by decide +kernel
  have second : ((m.run {} code).machine.run {} (m.run {} code).code).outcome = .ok ⟨3, 0, 32, 1⟩ := by
    decide +kernel
  have made : before = ⟨.ok #[⟨2, 1, 32, 0⟩], (m.run {} code).code, (m.run {} code).machine⟩ :=
    (Completes.pass first .none).runPasses_eq
  obtain ⟨state, restored, outcome, _⟩ := resumes m {} code 1 1 #[]
  refine ⟨⟨s, read, (reads _).2.1 s read⟩, ((reads [2, 9]).2.2.1 2).mpr ⟨by decide, rfl⟩,
    (reads [1, 9]).2.2.2.mpr ⟨by decide, ?_⟩, by rw [made], state, restored, outcome.trans ?_⟩
  · simp
  · change (before.machine.runPasses {} 1 before.code).outcome = _
    rw [made]
    exact congrArg PassesResult.outcome (Completes.pass second .none).runPasses_eq

end Machine

end LivePatch
