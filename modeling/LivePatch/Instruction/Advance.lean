import LivePatch.Instruction.Decode

namespace LivePatch

/-- Whatever is wrong with a value that was read, the stream was not too short for it. -/
def Fault.OfValue {α : Type} (parsed : Except Fault α) : Prop :=
  ∀ fault, parsed = .error fault → fault.isTruncation = false

theorem Addressing.ofValue_ofNibble (n : UInt8) : Fault.OfValue (ofNibble n) := by
  intro fault refused
  unfold ofNibble at refused
  split at refused
  · cases refused
  · split at refused <;> cases refused
    rfl

theorem Width.ofValue_ofNibble (n : UInt8) : Fault.OfValue (ofNibble n) := by
  intro fault refused
  unfold ofNibble at refused
  split at refused
  · cases refused
  · split at refused
    · cases refused
    · split at refused <;> cases refused
      rfl

theorem Register.ofValue_ofByte (b : UInt8) : Fault.OfValue (ofByte b) := by
  intro fault refused
  unfold ofByte at refused
  split at refused <;> cases refused
  rfl

theorem IntegerOperation.ofValue_ofCode (b : UInt8) : Fault.OfValue (ofCode b) := by
  intro fault refused
  unfold ofCode at refused
  split at refused
  case h_5 =>
    split at refused <;> cases refused
    rfl
  all_goals cases refused

theorem FloatOperation.ofValue_ofCode (b : UInt8) : Fault.OfValue (ofCode b) := by
  intro fault refused
  unfold ofCode at refused
  split at refused
  case h_6 =>
    split at refused <;> cases refused
    rfl
  all_goals cases refused

namespace Reader

/-- A property that passes from the primitive readers to every reader made of them. Only the primitive
ones find a stream too short. -/
structure Closed (P : (α : Type) → Reader α → Prop) : Prop where
  pure : ∀ {α : Type} (a : α), P α (Pure.pure a)
  bind : ∀ {α β : Type} {r : Reader α} {f : α → Reader β},
    P α r → (∀ a, P β (f a)) → P β (r >>= f)
  fail : ∀ {α : Type} {fault : Fault}, fault.isTruncation = false → P α (Reader.fail fault)
  bytes : ∀ count, P Bytes (Reader.bytes count)

namespace Closed

variable {P : (α : Type) → Reader α → Prop} (closed : Closed P)
include closed

theorem ofExcept {α : Type} {e : Except Fault α} (parsed : Fault.OfValue e) :
    P α (Reader.ofExcept e) := by
  cases e with
  | ok a => exact closed.pure a
  | error fault => exact closed.fail (parsed fault rfl)

theorem skip (count : Nat) : P Unit (Reader.skip count) :=
  closed.bind (closed.bytes count) fun _ => closed.pure _

theorem byte : P UInt8 Reader.byte :=
  closed.bind (closed.bytes 1) fun _ => closed.pure _

theorem half : P UInt16 Reader.half :=
  closed.bind (closed.bytes 2) fun _ => closed.pure _

theorem word : P UInt32 Reader.word :=
  closed.bind (closed.bytes 4) fun _ => closed.pure _

theorem words (count : Nat) : P (List UInt32) (Reader.words count) := by
  induction count with
  | zero => exact closed.pure _
  | succ count ih =>
    exact closed.bind closed.word fun _ => closed.bind ih fun _ => closed.pure _

theorem paddedBytes (count : Nat) : P Bytes (Reader.paddedBytes count) :=
  closed.bind (closed.bytes count) fun _ =>
    closed.bind (closed.skip _) fun _ => closed.pure _

theorem register (b : UInt8) : P Register (Reader.register b) :=
  closed.ofExcept (Register.ofValue_ofByte b)

theorem secondWord (op : Opcode) : P UInt32 (Reader.secondWord op) := by
  unfold Reader.secondWord
  split
  · exact closed.word
  · exact closed.pure _

theorem operand (op : Opcode) : P Operand (Reader.operand op) := by
  refine closed.bind closed.byte fun mode => closed.bind closed.half fun field =>
    closed.bind closed.word fun base => ?_
  split
  · exact closed.pure _
  · exact closed.pure _
  · exact closed.bind (closed.ofExcept (Addressing.ofValue_ofNibble _)) fun _ => closed.pure _
  · exact closed.bind (closed.ofExcept (Addressing.ofValue_ofNibble _)) fun _ =>
      closed.bind (closed.ofExcept (Width.ofValue_ofNibble _)) fun _ =>
      closed.bind (closed.secondWord op) fun _ => closed.pure _

theorem testOperand : P (Operand × UInt32) Reader.testOperand :=
  closed.bind (closed.operand _) fun _ => closed.bind closed.word fun _ => closed.pure _

theorem source (o : Operand) (literal : Bool) : P Source (Reader.source o literal) := by
  unfold Reader.source
  split
  · exact closed.pure _
  · exact closed.bind (closed.register _) fun _ => closed.pure _

theorem argumentCount : P UInt8 Reader.argumentCount := by
  refine closed.bind closed.byte fun count => ?_
  split
  · exact closed.fail rfl
  · exact closed.pure _

theorem call : P Instruction Reader.call :=
  closed.bind closed.byte fun _ => closed.bind (closed.register _) fun _ =>
    closed.bind closed.byte fun _ => closed.bind (closed.register _) fun _ =>
    closed.bind closed.argumentCount fun _ => closed.bind closed.word fun _ =>
    closed.bind (closed.words _) fun _ => closed.bind (closed.skip _) fun _ =>
    closed.pure _

theorem registerTransfer {op : Opcode} {make : Operand → Register → Instruction} :
    P Instruction (do
      let o ← Reader.operand op
      return make o (← Reader.lowRegister o.field)) :=
  closed.bind (closed.operand _) fun _ => closed.bind (closed.register _) fun _ =>
    closed.pure _

theorem control {count : Nat} {i : Instruction} :
    P Instruction (do
      Reader.skip count
      return i) :=
  closed.bind (closed.skip _) fun _ => closed.pure _

theorem controlWord {make : UInt32 → Instruction} :
    P Instruction (do
      Reader.skip 3
      return make (← Reader.word)) :=
  closed.bind (closed.skip _) fun _ => closed.bind closed.word fun _ => closed.pure _

theorem instruction (op : Opcode) : P Instruction (Reader.instruction op) := by
  cases op with
  | write =>
    exact closed.bind (closed.operand _) fun _ => closed.bind (closed.skip _) fun _ =>
      closed.pure _
  | writeString =>
    exact closed.bind (closed.operand _) fun _ => closed.bind (closed.paddedBytes _) fun _ =>
      closed.pure _
  | writeSeries =>
    exact closed.bind (closed.operand _) fun _ => closed.bind closed.word fun _ =>
      closed.bind closed.word fun _ => closed.bind (closed.skip _) fun _ =>
      closed.pure _
  | fill | loadPointer =>
    exact closed.bind (closed.operand _) fun _ => closed.bind closed.word fun _ =>
      closed.pure _
  | test c => exact closed.bind closed.testOperand fun _ => closed.pure _
  | loadInteger | storeInteger | loadFloat | storeFloat => exact closed.registerTransfer
  | integerArithmetic =>
    exact closed.bind (closed.operand _) fun _ =>
      closed.bind (closed.ofExcept (IntegerOperation.ofValue_ofCode _)) fun _ =>
      closed.bind (closed.register _) fun _ => closed.bind (closed.source _ _) fun _ =>
      closed.pure _
  | floatArithmetic =>
    refine closed.bind (closed.operand _) fun _ =>
      closed.bind (closed.ofExcept (FloatOperation.ofValue_ofCode _)) fun operation => ?_
    cases operation with
    | toInteger =>
      exact closed.bind (closed.register _) fun _ => closed.bind (closed.register _) fun _ =>
        closed.pure _
    | arithmetic a literal =>
      exact closed.bind (closed.register _) fun _ => closed.bind (closed.source _ _) fun _ =>
        closed.pure _
  | timer | offsetPointer | setPointer => exact closed.controlWord
  | resetTimer | terminator | noOperation | timerEnd => exact closed.control
  | native =>
    exact closed.bind (closed.skip _) fun _ => closed.bind closed.half fun _ =>
      closed.bind (closed.skip _) fun _ => closed.bind (closed.bytes _) fun _ =>
      closed.pure _
  | systemCall =>
    exact closed.bind (closed.skip _) fun _ => closed.bind closed.half fun _ =>
      closed.bind (closed.skip _) fun _ => closed.pure _
  | corrupt =>
    exact closed.bind (closed.skip _) fun _ => closed.bind closed.word fun _ =>
      closed.bind closed.word fun _ => closed.bind closed.word fun _ =>
      closed.bind closed.word fun _ => closed.bind (closed.skip _) fun _ =>
      closed.pure _
  | search =>
    exact closed.bind closed.byte fun _ => closed.bind closed.half fun _ =>
      closed.bind closed.half fun _ => closed.bind closed.half fun _ =>
      closed.bind (closed.paddedBytes _) fun _ => closed.pure _
  | call => exact closed.call

end Closed

/-- `r` reads `a` from the bytes `bs`, and leaves whatever follows them. -/
def Reads {α : Type} (r : Reader α) (a : α) (bs : Bytes) : Prop :=
  ∀ (position : Nat) (tail : Bytes), r ⟨position, bs ++ tail⟩ = .ok (a, ⟨position + bs.length, tail⟩)

/-- Success of `r` at any place of a stream is a reading of the bytes it moves over. -/
def Delimited {α : Type} (r : Reader α) : Prop :=
  ∀ (c : Cursor) (a : α) (c' : Cursor), r c = .ok (a, c') →
    ∃ bs, r.Reads a bs ∧ c.rest = bs ++ c'.rest ∧ c'.position = c.position + bs.length

theorem Reads.pure {α : Type} (a : α) : (Pure.pure a : Reader α).Reads a [] := by
  intro position tail
  rfl

theorem Reads.bind {α β : Type} {r : Reader α} {f : α → Reader β} {a : α} {b : β} {us vs : Bytes}
    (first : r.Reads a us) (second : (f a).Reads b vs) : (r >>= f).Reads b (us ++ vs) := by
  intro position tail
  change (r ⟨position, us ++ vs ++ tail⟩ >>= fun p => f p.1 p.2) = _
  rw [List.append_assoc, first]
  change f a ⟨position + us.length, vs ++ tail⟩ = _
  rw [second, List.length_append, Nat.add_assoc]

theorem Reads.bytes (bs : Bytes) : (Reader.bytes bs.length).Reads bs bs := by
  intro position tail
  have enough : fits bs.length (bs ++ tail) = true := (fits_iff _ _).mpr (by simp)
  simp [Reader.bytes, Cursor.take, enough]

theorem Delimited.bind {α β : Type} {r : Reader α} {f : α → Reader β} (first : r.Delimited)
    (second : ∀ a, (f a).Delimited) : (r >>= f).Delimited := by
  intro c b c' run
  change (r c >>= fun p => f p.1 p.2) = .ok (b, c') at run
  cases step : r c with
  | error fault =>
    rw [step] at run
    cases run
  | ok p =>
    rw [step] at run
    obtain ⟨us, readsFirst, restFirst, movedFirst⟩ := first c p.1 p.2 step
    obtain ⟨vs, readsSecond, restSecond, movedSecond⟩ := second p.1 p.2 b c' run
    refine ⟨us ++ vs, readsFirst.bind readsSecond, ?_, ?_⟩
    · rw [restFirst, restSecond, List.append_assoc]
    · rw [movedSecond, movedFirst, List.length_append, Nat.add_assoc]

theorem Delimited.bytes (count : Nat) : (Reader.bytes count).Delimited := by
  intro c a c' run
  unfold Reader.bytes Cursor.take at run
  split at run
  · rename_i enough
    cases run
    have length : (c.rest.take count).length = count := by
      have := (fits_iff _ _).mp enough
      simp only [List.length_take]
      omega
    have reads := Reads.bytes (c.rest.take count)
    rw [length] at reads
    exact ⟨c.rest.take count, reads, by simp, by rw [length]⟩
  · cases run

theorem closed_delimited : Closed fun _ r => Delimited r where
  pure a := by
    intro c b c' run
    cases run
    exact ⟨[], .pure a, rfl, rfl⟩
  bind := .bind
  fail _ := by
    intro c a c' run
    cases run
  bytes := .bytes

theorem reads_byte (b : UInt8) : byte.Reads b [b] := by
  intro position tail
  change Except.ok (UInt8.ofNat (ofBigEndian [b]), _) = _
  simp [ofBigEndian, ofLittleEndian]

theorem byte_eq_ok {c c' : Cursor} {b : UInt8} (run : byte c = .ok (b, c')) :
    c.rest = b :: c'.rest ∧ c'.position = c.position + 1 := by
  obtain ⟨position, rest⟩ := c
  cases rest with
  | nil => cases run
  | cons first rest =>
    have again := reads_byte first position rest
    rw [List.singleton_append, run] at again
    cases again
    exact ⟨rfl, rfl⟩

end Reader

/-- A decoded instruction is its opcode byte and the bytes that its reader takes; nothing behind them
is looked at. -/
theorem decode_eq_ok_iff {bs : Bytes} {i : Instruction} {n : Nat} :
    decode bs = .ok (i, n) ↔ ∃ op body tail, bs = op.byte :: (body ++ tail) ∧
      (Reader.instruction op).Reads i body ∧ n = body.length + 1 := by
  constructor
  · intro decoded
    unfold decode at decoded
    split at decoded
    · cases decoded
    · rename_i byte c first
      obtain ⟨rest, position⟩ := Reader.byte_eq_ok first
      split at decoded
      · cases decoded
      · rename_i op known
        split at decoded
        · cases decoded
        · rename_i i' c' body
          obtain ⟨taken, reads, split, moved⟩ :=
            Reader.closed_delimited.instruction op c i' c' body
          cases decoded
          refine ⟨op, taken, c'.rest, ?_, reads, ?_⟩
          · rw [Opcode.byte_of_ofByte? known, ← split]
            exact rest
          · rw [moved, position]
            simp only [Cursor.ofBytes]
            omega
  · rintro ⟨op, body, tail, rfl, reads, rfl⟩
    have first := Reader.reads_byte op.byte 0 (body ++ tail)
    have instruction := reads 1 tail
    unfold decode Cursor.ofBytes
    rw [List.singleton_append] at first
    simp only [first, Opcode.ofByte?_byte, List.length_singleton, Nat.zero_add, instruction,
      Nat.add_comm]

theorem decode_bounds {bs : Bytes} {i : Instruction} {n : Nat} (decoded : decode bs = .ok (i, n)) :
    0 < n ∧ n ≤ bs.length := by
  obtain ⟨op, body, tail, rfl, _, rfl⟩ := decode_eq_ok_iff.mp decoded
  simp only [List.length_cons, List.length_append]
  omega

/-- The same instruction is decoded whatever follows its bytes. -/
theorem decode_take_append {bs : Bytes} {i : Instruction} {n : Nat}
    (decoded : decode bs = .ok (i, n)) (tail : Bytes) : decode (bs.take n ++ tail) = .ok (i, n) := by
  obtain ⟨op, body, rest, rfl, reads, rfl⟩ := decode_eq_ok_iff.mp decoded
  refine decode_eq_ok_iff.mpr ⟨op, body, tail, ?_, reads, rfl⟩
  simp

theorem decode_append {bs : Bytes} {i : Instruction} {n : Nat} (decoded : decode bs = .ok (i, n))
    (tail : Bytes) : decode (bs ++ tail) = .ok (i, n) := by
  have cut := decode_take_append decoded (bs.drop n ++ tail)
  rwa [← List.append_assoc, List.take_append_drop] at cut

end LivePatch
