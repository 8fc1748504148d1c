import LivePatch.Instruction.Advance
import LivePatch.Instruction.Encode

namespace LivePatch

def highByte (field : UInt16) : UInt8 :=
  UInt8.ofNat (field.toNat / 256)

def lowByte (field : UInt16) : UInt8 :=
  UInt8.ofNat field.toNat

@[simp]
theorem length_be16 (w : UInt16) : (be16 w).length = 2 := rfl

@[simp]
theorem length_be32 (w : UInt32) : (be32 w).length = 4 := rfl

theorem length_encodeWords (ws : List UInt32) : (Instruction.encodeWords ws).length = ws.length * 4 := by
  induction ws with
  | nil => rfl
  | cons w ws ih =>
    have split : Instruction.encodeWords (w :: ws) = be32 w ++ Instruction.encodeWords ws := rfl
    rw [split, List.length_append, length_be32, ih, List.length_cons]
    omega

theorem be16_ofBigEndian {bs : Bytes} (length : bs.length = 2) :
    be16 (UInt16.ofNat (ofBigEndian bs)) = bs := by
  match bs, length with
  | [a, b], _ =>
    have boundA := a.toNat_lt
    have boundB := b.toNat_lt
    have value : (UInt16.ofNat (ofBigEndian [a, b])).toNat = b.toNat + 256 * a.toNat := by
      simp [ofBigEndian, ofLittleEndian]
      omega
    simp [be16, bigEndian, littleEndian, value, ← UInt8.toNat_inj]
    omega

theorem be32_ofBigEndian {bs : Bytes} (length : bs.length = 4) :
    be32 (UInt32.ofNat (ofBigEndian bs)) = bs := by
  match bs, length with
  | [a, b, c, d], _ =>
    have boundA := a.toNat_lt
    have boundB := b.toNat_lt
    have boundC := c.toNat_lt
    have boundD := d.toNat_lt
    have value : (UInt32.ofNat (ofBigEndian [a, b, c, d])).toNat =
        d.toNat + 256 * (c.toNat + 256 * (b.toNat + 256 * a.toNat)) := by
      simp [ofBigEndian, ofLittleEndian]
      omega
    simp [be32, bigEndian, littleEndian, value, ← UInt8.toNat_inj]
    omega

namespace Reader

theorem bind_eq_ok {α β : Type} {r : Reader α} {f : α → Reader β} {c c' : Cursor} {b : β}
    (run : (r >>= f) c = .ok (b, c')) : ∃ a c₁, r c = .ok (a, c₁) ∧ f a c₁ = .ok (b, c') := by
  change (r c >>= fun p => f p.1 p.2) = .ok (b, c') at run
  cases step : r c with
  | error fault =>
    rw [step] at run
    cases run
  | ok p =>
    rw [step] at run
    exact ⟨p.1, p.2, rfl, run⟩

theorem bytes_eq_ok {count : Nat} {c c' : Cursor} {bs : Bytes} (run : bytes count c = .ok (bs, c')) :
    c.rest = bs ++ c'.rest ∧ bs.length = count := by
  unfold bytes Cursor.take at run
  split at run
  · rename_i enough
    have within := (fits_iff _ _).mp enough
    cases run
    refine ⟨by simp, ?_⟩
    simp only [List.length_take]
    omega
  · cases run

theorem skip_eq_ok {count : Nat} {c c' : Cursor} {u : Unit} (run : skip count c = .ok (u, c')) :
    ∃ bs, c.rest = bs ++ c'.rest ∧ bs.length = count := by
  obtain ⟨bs, c₁, taken, rest⟩ := bind_eq_ok run
  cases rest
  exact ⟨bs, bytes_eq_ok taken⟩

theorem half_eq_ok {c c' : Cursor} {w : UInt16} (run : half c = .ok (w, c')) :
    c.rest = be16 w ++ c'.rest := by
  obtain ⟨bs, c₁, taken, rest⟩ := bind_eq_ok run
  cases rest
  obtain ⟨split, length⟩ := bytes_eq_ok taken
  rw [be16_ofBigEndian length, split]

theorem word_eq_ok {c c' : Cursor} {w : UInt32} (run : word c = .ok (w, c')) :
    c.rest = be32 w ++ c'.rest := by
  obtain ⟨bs, c₁, taken, rest⟩ := bind_eq_ok run
  cases rest
  obtain ⟨split, length⟩ := bytes_eq_ok taken
  rw [be32_ofBigEndian length, split]

theorem words_eq_ok {count : Nat} {c c' : Cursor} {ws : List UInt32}
    (run : words count c = .ok (ws, c')) :
    c.rest = Instruction.encodeWords ws ++ c'.rest ∧ ws.length = count := by
  induction count generalizing c ws with
  | zero =>
    cases run
    exact ⟨rfl, rfl⟩
  | succ count ih =>
    obtain ⟨w, c₁, first, run⟩ := bind_eq_ok run
    obtain ⟨others, c₂, remaining, run⟩ := bind_eq_ok run
    cases run
    obtain ⟨split, length⟩ := ih remaining
    refine ⟨?_, by rw [List.length_cons, length]⟩
    rw [word_eq_ok first, split, ← List.append_assoc]
    rfl

theorem paddedBytes_eq_ok {count : Nat} {c c' : Cursor} {bs : Bytes}
    (run : paddedBytes count c = .ok (bs, c')) :
    bs.length = count ∧ ∃ pad, c.rest = bs ++ pad ++ c'.rest ∧
      pad.length = roundUpToLine count - count := by
  obtain ⟨payload, c₁, taken, run⟩ := bind_eq_ok run
  obtain ⟨_, c₂, skipped, run⟩ := bind_eq_ok run
  cases run
  obtain ⟨split, length⟩ := bytes_eq_ok taken
  obtain ⟨pad, padded, padLength⟩ := skip_eq_ok skipped
  exact ⟨length, pad, by rw [split, padded, List.append_assoc], padLength⟩

theorem ofExcept_bind_eq_ok {α β : Type} {e : Except Fault α} {f : α → Reader β} {c c' : Cursor}
    {b : β} (run : (ofExcept e >>= f) c = .ok (b, c')) : ∃ a, e = .ok a ∧ f a c = .ok (b, c') := by
  cases e with
  | error fault => cases run
  | ok a => exact ⟨a, rfl, run⟩

@[simp]
theorem bind_apply {α β : Type} (r : Reader α) (f : α → Reader β) (c : Cursor) :
    (r >>= f) c = (r c).bind fun p => f p.1 p.2 := rfl

@[simp]
theorem map_apply {α β : Type} (f : α → β) (r : Reader α) (c : Cursor) :
    (f <$> r) c = (r c).bind fun p => .ok (f p.1, p.2) := rfl

@[simp]
theorem pure_apply {α : Type} (a : α) (c : Cursor) : (pure a : Reader α) c = .ok (a, c) := rfl

@[simp]
theorem ofExcept_ok {α : Type} (a : α) (c : Cursor) : ofExcept (.ok a) c = .ok (a, c) := rfl

theorem bytes_append (position : Nat) {bs : Bytes} {count : Nat} (length : bs.length = count)
    (tail : Bytes) : bytes count ⟨position, bs ++ tail⟩ = .ok (bs, ⟨position + count, tail⟩) := by
  subst length
  exact Reads.bytes bs position tail

theorem skip_append (position : Nat) {bs : Bytes} {count : Nat} (length : bs.length = count)
    (tail : Bytes) : skip count ⟨position, bs ++ tail⟩ = .ok ((), ⟨position + count, tail⟩) := by
  simp [skip, bytes_append position length, Except.bind]

@[simp]
theorem byte_cons (position : Nat) (b : UInt8) (tail : Bytes) :
    byte ⟨position, b :: tail⟩ = .ok (b, ⟨position + 1, tail⟩) :=
  reads_byte b position tail

@[simp]
theorem half_append (position : Nat) (w : UInt16) (tail : Bytes) :
    half ⟨position, be16 w ++ tail⟩ = .ok (w, ⟨position + 2, tail⟩) := by
  simp [half, bytes_append position (length_be16 w), Except.bind, ofBigEndian_be16]

@[simp]
theorem word_append (position : Nat) (w : UInt32) (tail : Bytes) :
    word ⟨position, be32 w ++ tail⟩ = .ok (w, ⟨position + 4, tail⟩) := by
  simp [word, bytes_append position (length_be32 w), Except.bind, ofBigEndian_be32]

theorem words_append (position : Nat) {ws : List UInt32} {count : Nat} (length : ws.length = count)
    (tail : Bytes) : words count ⟨position, Instruction.encodeWords ws ++ tail⟩ =
      .ok (ws, ⟨position + count * 4, tail⟩) := by
  induction ws generalizing position count with
  | nil =>
    subst length
    rfl
  | cons w ws ih =>
    subst length
    have split : Instruction.encodeWords (w :: ws) = be32 w ++ Instruction.encodeWords ws := rfl
    simp only [List.length_cons, words, split, List.append_assoc, bind_apply, word_append, Except.bind,
      ih _ rfl, pure_apply, Nat.succ_mul, Nat.add_assoc, Nat.add_comm 4]

theorem paddedBytes_append (position : Nat) {bs pad : Bytes} {count : Nat} (length : bs.length = count)
    (padding : pad.length = roundUpToLine count - count) (tail : Bytes) :
    paddedBytes count ⟨position, bs ++ (pad ++ tail)⟩ =
      .ok (bs, ⟨position + roundUpToLine count, tail⟩) := by
  have enough := le_roundUpToLine count
  simp only [paddedBytes, bind_apply, bytes_append position length, Except.bind,
    skip_append _ padding, pure_apply, Nat.add_assoc, Nat.add_sub_cancel' enough]

end Reader

namespace Addressing

theorem ofNibble_eq_ok_iff {n : UInt8} {a : Addressing} : ofNibble n = .ok a ↔ n = a.nibble := by
  unfold ofNibble
  constructor
  · intro parsed
    split at parsed
    · cases parsed
      assumption
    · split at parsed
      · cases parsed
        assumption
      · cases parsed
  · rintro rfl
    cases a <;> rfl

end Addressing

namespace Width

theorem ofNibble_eq_ok_iff {n : UInt8} {w : Width} : ofNibble n = .ok w ↔ n = w.nibble := by
  unfold ofNibble
  constructor
  · intro parsed
    split at parsed
    · cases parsed
      assumption
    · split at parsed
      · cases parsed
        assumption
      · split at parsed
        · cases parsed
          assumption
        · cases parsed
  · rintro rfl
    cases w <;> rfl

end Width

theorem upperNibble_modeByte (a : Addressing) (w : Width) : upperNibble (modeByte a w) = a.nibble := by
  cases a <;> cases w <;> rfl

theorem lowerNibble_modeByte (a : Addressing) (w : Width) : lowerNibble (modeByte a w) = w.nibble := by
  cases a <;> cases w <;> rfl

theorem eq_modeByte {mode : UInt8} {a : Addressing} {w : Width} (upper : upperNibble mode = a.nibble)
    (lower : lowerNibble mode = w.nibble) : mode = modeByte a w := by
  have whole : upperNibble mode * 16 + lowerNibble mode = mode := by
    apply UInt8.toNat.inj
    have bound := mode.toNat_lt
    simp only [upperNibble, lowerNibble, UInt8.toNat_add, UInt8.toNat_mul, UInt8.toNat_div,
      UInt8.toNat_mod, UInt8.toNat_ofNat, Nat.reducePow, Nat.reduceMod]
    omega
  rw [← whole, upper, lower, modeByte]

theorem Register.ofByte_eq_ok_iff {b : UInt8} {r : Register} : ofByte b = .ok r ↔ b = r.toByte := by
  unfold ofByte ofIndex? toByte
  constructor
  · intro parsed
    split at parsed
    · rename_i s found
      split at found
      · cases found
        cases parsed
        exact UInt8.ofNat_toNat.symm
      · cases found
    · cases parsed
  · rintro rfl
    have value : (UInt8.ofNat r.val).toNat = r.val := by
      have := r.isLt
      simp only [UInt8.toNat_ofNat']
      omega
    simp [value]

/-- The second operand of register arithmetic, as the low byte of the field or the last word. -/
def Source.In (field : UInt16) (base : UInt32) : Source → Prop
  | .register r => lowByte field = r.toByte
  | .literal value => base = value

/-- Whether an operand has a width and, in a longer instruction, a value. -/
def Opcode.sized : Opcode → Bool
  | .integerArithmetic | .floatArithmetic | .writeString => false
  | _ => true

/-- The bytes of the value of an operand. -/
def Opcode.valueBytes (op : Opcode) (value : UInt32) : Bytes :=
  if 8 < op.fixedLength?.getD 8 then be32 value else []

namespace Reader

theorem secondWord_eq_ok {op : Opcode} {c c' : Cursor} {value : UInt32}
    (run : secondWord op c = .ok (value, c')) : c.rest = op.valueBytes value ++ c'.rest := by
  unfold secondWord at run
  unfold Opcode.valueBytes
  split at run
  · rename_i long
    rw [if_pos long]
    exact word_eq_ok run
  · rename_i short
    rw [if_neg short]
    cases run
    rfl

theorem head_eq_ok {α : Type} {f : UInt8 → UInt16 → UInt32 → Reader α} {c c' : Cursor} {a : α}
    (run : (do
      let mode ← byte
      let field ← half
      let base ← word
      f mode field base) c = .ok (a, c')) :
    ∃ mode field base c₁, c.rest = mode :: (be16 field ++ be32 base ++ c₁.rest) ∧
      f mode field base c₁ = .ok (a, c') := by
  obtain ⟨mode, c₁, first, run⟩ := bind_eq_ok run
  obtain ⟨field, c₂, second, run⟩ := bind_eq_ok run
  obtain ⟨base, c₃, third, run⟩ := bind_eq_ok run
  refine ⟨mode, field, base, c₃, ?_, run⟩
  rw [(byte_eq_ok first).1, half_eq_ok second, word_eq_ok third, List.append_assoc]

theorem operand_eq_ok {op : Opcode} {c c' : Cursor} {o : Operand} (sized : op.sized = true)
    (run : operand op c = .ok (o, c')) :
    c.rest = modeByte o.target.addressing o.width :: (be16 o.field ++ be32 o.target.address ++
      op.valueBytes o.value) ++ c'.rest := by
  obtain ⟨mode, field, base, c₁, rest, run⟩ := head_eq_ok run
  split at run
  · cases sized
  · cases sized
  · cases sized
  · obtain ⟨addressing, upper, run⟩ := ofExcept_bind_eq_ok run
    obtain ⟨width, lower, run⟩ := ofExcept_bind_eq_ok run
    obtain ⟨value, c₂, second, run⟩ := bind_eq_ok run
    cases run
    rw [rest, secondWord_eq_ok second,
      eq_modeByte (Addressing.ofNibble_eq_ok_iff.mp upper) (Width.ofNibble_eq_ok_iff.mp lower)]
    simp

theorem register_bind_eq_ok {α : Type} {byte : UInt8} {f : Register → Reader α} {c c' : Cursor} {a : α}
    (run : (register byte >>= f) c = .ok (a, c')) : ∃ r, byte = r.toByte ∧ f r c = .ok (a, c') := by
  obtain ⟨r, parsed, run⟩ := ofExcept_bind_eq_ok run
  exact ⟨r, Register.ofByte_eq_ok_iff.mp parsed, run⟩

theorem source_bind_eq_ok {α : Type} {o : Operand} {literal : Bool} {f : Source → Reader α}
    {c c' : Cursor} {a : α} (run : (source o literal >>= f) c = .ok (a, c')) :
    ∃ s, s.In o.field o.value ∧ s.isLiteral = literal ∧ f s c = .ok (a, c') := by
  obtain ⟨s, c₁, first, run⟩ := bind_eq_ok run
  unfold source at first
  split at first
  · rename_i isLiteral
    cases first
    exact ⟨.literal o.value, rfl, isLiteral.symm, run⟩
  · rename_i notLiteral
    obtain ⟨r, named, first⟩ := register_bind_eq_ok first
    cases first
    exact ⟨.register r, named, (Bool.eq_false_iff.mpr notLiteral).symm, run⟩

theorem argumentCount_eq_ok {c c' : Cursor} {count : UInt8} (run : argumentCount c = .ok (count, c')) :
    c.rest = count :: c'.rest ∧ count ≤ 8 := by
  obtain ⟨b, c₁, first, run⟩ := bind_eq_ok run
  split at run
  · cases run
  · rename_i limit
    cases run
    exact ⟨(byte_eq_ok first).1, UInt8.not_lt.mp limit⟩

theorem operand_append {op : Opcode} (sized : op.sized = true) {position : Nat} {a : Addressing}
    {w : Width} {field : UInt16} {base value : UInt32} {rest tail : Bytes} {n : Nat}
    (second : secondWord op ⟨position + 7, rest⟩ = .ok (value, ⟨n, tail⟩)) :
    operand op ⟨position, modeByte a w :: (be16 field ++ (be32 base ++ rest))⟩ =
      .ok (⟨modeByte a w, ⟨a, base⟩, w, value, w.size, field⟩, ⟨n, tail⟩) := by
  have addressing := Addressing.ofNibble_eq_ok_iff.mpr (upperNibble_modeByte a w)
  have width := Width.ofNibble_eq_ok_iff.mpr (lowerNibble_modeByte a w)
  unfold operand
  simp only [bind_apply, byte_cons, half_append, word_append, Except.bind]
  split
  · cases sized
  · cases sized
  · cases sized
  · simp only [addressing, width, bind_apply, ofExcept_ok, Except.bind, Nat.add_assoc, Nat.reduceAdd,
      second, pure_apply]

theorem operand_long (op : Opcode) (sized : op.sized = true) (long : 8 < op.fixedLength?.getD 8)
    (position : Nat) (a : Addressing) (w : Width) (field : UInt16) (base value : UInt32) (tail : Bytes) :
    operand op ⟨position, modeByte a w :: (be16 field ++ (be32 base ++ (be32 value ++ tail)))⟩ =
      .ok (⟨modeByte a w, ⟨a, base⟩, w, value, w.size, field⟩, ⟨position + 11, tail⟩) := by
  refine operand_append sized ?_
  rw [secondWord, if_pos long, word_append]

theorem operand_short (op : Opcode) (sized : op.sized = true) (short : ¬ 8 < op.fixedLength?.getD 8)
    (position : Nat) (a : Addressing) (w : Width) (field : UInt16) (base : UInt32) (tail : Bytes) :
    operand op ⟨position, modeByte a w :: (be16 field ++ (be32 base ++ tail))⟩ =
      .ok (⟨modeByte a w, ⟨a, base⟩, w, 0, w.size, field⟩, ⟨position + 7, tail⟩) := by
  refine operand_append sized ?_
  rw [secondWord, if_neg short, pure_apply]

@[simp]
theorem register_toByte (r : Register) (c : Cursor) : register r.toByte c = .ok (r, c) := by
  rw [register, Register.ofByte_eq_ok_iff.mpr rfl, ofExcept_ok]

theorem highRegister_of {field : UInt16} {r : Register} (named : highByte field = r.toByte) (c : Cursor) :
    highRegister field c = .ok (r, c) := by
  rw [highRegister, ← highByte, named, register_toByte]

theorem lowRegister_of {field : UInt16} {r : Register} (named : lowByte field = r.toByte) (c : Cursor) :
    lowRegister field c = .ok (r, c) := by
  rw [lowRegister, ← lowByte, named, register_toByte]

theorem source_of {s : Source} {field : UInt16} {base : UInt32} (second : s.In field base) (mode : UInt8)
    (target : Target) (width : Width) (length : Nat) (c : Cursor) :
    source ⟨mode, target, width, base, length, field⟩ s.isLiteral c = .ok (s, c) := by
  cases s with
  | literal value =>
    cases second
    rfl
  | register r =>
    change (lowRegister field >>= fun r => pure (Source.register r)) c = _
    simp [lowRegister_of second, Except.bind]

theorem argumentCount_cons (position : Nat) {count : UInt8} (limit : count ≤ 8) (tail : Bytes) :
    argumentCount ⟨position, count :: tail⟩ = .ok (count, ⟨position + 1, tail⟩) := by
  simp [argumentCount, UInt8.not_lt.mpr limit, Except.bind]

end Reader

end LivePatch
