import LivePatch.Proofs.Wire.RoundTrip

namespace LivePatch

namespace Reader

variable {α β : Type}

/-- What a reader reads in two stages is read in two parts of the bytes. -/
theorem Reads.exists_of_bind {r : Reader α} {f : α → Reader β} (first : r.Delimited)
    (second : ∀ a, (f a).Delimited) {b : β} {bs : Bytes} (reads : (r >>= f).Reads b bs) :
    ∃ a us vs, r.Reads a us ∧ (f a).Reads b vs ∧ bs = us ++ vs := by
  have run := reads 0 []
  rw [List.append_nil] at run
  obtain ⟨a, c, runFirst, runSecond⟩ := bind_eq_ok run
  obtain ⟨us, readsFirst, split, _⟩ := first _ _ _ runFirst
  obtain ⟨vs, readsSecond, splitRest, _⟩ := second a _ _ _ runSecond
  simp only [List.append_nil] at splitRest
  exact ⟨a, us, vs, readsFirst, readsSecond, by rw [← splitRest, ← split]⟩

/-- How the end of the stream shows in what a reader does. -/
structure Streaming (r : Reader α) : Prop where
  delimited : r.Delimited
  /-- Only at the end of the stream bytes are missing. -/
  short : ∀ (c : Cursor) (position wanted available : Nat),
    r c = .error (.truncated position wanted available) →
      position + available = c.length ∧ available < wanted
  /-- What is wrong for another reason stays wrong. -/
  settled : ∀ (c : Cursor) (fault : Fault), r c = .error fault → fault.isTruncation = false →
    ∀ tail, r ⟨c.position, c.rest ++ tail⟩ = .error fault
  /-- Of the bytes that it reads none can be missing, and it asks for none behind them. -/
  cut : ∀ (a : α) (bs : Bytes), r.Reads a bs → ∀ start k, k < bs.length →
    ∃ position wanted available,
      r ⟨start, bs.take k⟩ = .error (.truncated position wanted available) ∧
      position + available = start + k ∧ available < wanted ∧ position + wanted ≤ start + bs.length

namespace Streaming

theorem pure (a : α) : (Pure.pure a : Reader α).Streaming where
  delimited := closed_delimited.pure a
  short := by
    intro c position wanted available run
    cases run
  settled := by
    intro c fault run
    cases run
  cut := by
    intro b bs reads start k inside
    have run := reads 0 []
    rw [List.append_nil, pure_apply] at run
    simp only [Except.ok.injEq, Prod.mk.injEq, Cursor.mk.injEq] at run
    rw [run.2.2] at inside
    cases inside

theorem fail {fault : Fault} (other : fault.isTruncation = false) :
    (Reader.fail fault : Reader α).Streaming where
  delimited := closed_delimited.fail other
  short := by
    intro c position wanted available run
    cases run
    cases other
  settled := by
    intro c found run _ tail
    cases run
    rfl
  cut := by
    intro a bs reads
    cases reads 0 []

theorem bytes (count : Nat) : (Reader.bytes count).Streaming where
  delimited := .bytes count
  short := by
    intro c position wanted available run
    unfold Reader.bytes Cursor.take at run
    split at run
    · cases run
    · rename_i few
      rw [fits_iff] at few
      cases run
      exact ⟨rfl, by omega⟩
  settled := by
    intro c fault run other
    unfold Reader.bytes Cursor.take at run
    split at run
    · cases run
    · cases run
      cases other
  cut := by
    intro a bs reads start k inside
    have run := reads start []
    obtain ⟨split, size⟩ := bytes_eq_ok run
    have length : bs.length = count := by
      simp only [List.append_nil] at split
      rw [split, size]
    have front : (bs.take k).length = k := by
      rw [List.length_take]
      omega
    have few : ¬ fits count (bs.take k) = true := by
      rw [fits_iff]
      omega
    refine ⟨start, count, k, ?_, rfl, by omega, by omega⟩
    rw [Reader.bytes, Cursor.take, if_neg few, front]

theorem bind {r : Reader α} {f : α → Reader β} (first : r.Streaming)
    (second : ∀ a, (f a).Streaming) : (r >>= f).Streaming where
  delimited := first.delimited.bind fun a => (second a).delimited
  short := by
    intro c position wanted available run
    rw [bind_apply] at run
    cases step : r c with
    | error fault =>
      rw [step] at run
      cases run
      exact first.short c _ _ _ step
    | ok p =>
      rw [step] at run
      obtain ⟨bs, _, split, moved⟩ := first.delimited c p.1 p.2 step
      have sameEnd : p.2.length = c.length := by
        rw [Cursor.length, Cursor.length, split, moved, List.length_append, Nat.add_assoc]
      rw [← sameEnd]
      exact (second p.1).short p.2 _ _ _ run
  settled := by
    intro c fault run other tail
    rw [bind_apply] at run ⊢
    cases step : r c with
    | error found =>
      rw [step] at run
      cases run
      rw [first.settled c _ step other tail]
      rfl
    | ok p =>
      rw [step] at run
      obtain ⟨bs, reads, split, moved⟩ := first.delimited c p.1 p.2 step
      rw [split, List.append_assoc, reads, ← moved]
      exact (second p.1).settled p.2 _ run other tail
  cut := by
    intro b bs reads start k inside
    obtain ⟨a, us, vs, readsFirst, readsSecond, rfl⟩ :=
      reads.exists_of_bind first.delimited fun a => (second a).delimited
    rw [List.length_append] at inside ⊢
    rcases Nat.lt_or_ge k us.length with early | late
    · obtain ⟨position, wanted, available, run, place, few, enough⟩ :=
        first.cut a us readsFirst start k early
      refine ⟨position, wanted, available, ?_, place, few, by omega⟩
      rw [List.take_append_of_le_length (Nat.le_of_lt early), bind_apply, run]
      rfl
    · obtain ⟨j, rfl⟩ := Nat.exists_eq_add_of_le late
      obtain ⟨position, wanted, available, run, place, few, enough⟩ :=
        (second a).cut b vs readsSecond (start + us.length) j (by omega)
      refine ⟨position, wanted, available, ?_, by omega, few, by omega⟩
      rw [List.take_length_add_append, bind_apply, readsFirst]
      exact run

end Streaming

theorem closed_streaming : Closed fun _ r => Streaming r where
  pure := .pure
  bind := .bind
  fail := .fail
  bytes := .bytes

end Reader

/-- A stream is empty, or begins with a byte that is no opcode, or with an opcode. -/
theorem decode_cases (s : Bytes) :
    (s = [] ∧ decode s = .error (.malformed (.truncated 0 1 0))) ∨
    (∃ b rest, s = b :: rest ∧ ∀ tail, decode (s ++ tail) = .error (.unknownOpcode b)) ∨
    ∃ (op : Opcode) (rest : Bytes), s = op.byte :: rest := by
  cases s with
  | nil => exact .inl ⟨rfl, rfl⟩
  | cons b rest =>
    cases known : Opcode.ofByte? b with
    | none =>
      refine .inr (.inl ⟨b, rest, rfl, fun tail => ?_⟩)
      unfold decode Cursor.ofBytes
      simp only [List.cons_append, Reader.byte_cons, known]
    | some op => exact .inr (.inr ⟨op, rest, by rw [Opcode.byte_of_ofByte? known]⟩)

theorem decode_opcode (op : Opcode) (rest : Bytes) :
    decode (op.byte :: rest) = match Reader.instruction op ⟨1, rest⟩ with
      | .error fault => .error (.malformed fault)
      | .ok (i, c) => .ok (i, c.position) := by
  unfold decode Cursor.ofBytes
  cases run : Reader.instruction op ⟨1, rest⟩ <;>
    simp only [Reader.byte_cons, Opcode.ofByte?_byte, Nat.zero_add, run]

theorem decode_opcode_eq_error {op : Opcode} {rest : Bytes} {e : DecodeError}
    (refused : decode (op.byte :: rest) = .error e) :
    ∃ fault, e = .malformed fault ∧ Reader.instruction op ⟨1, rest⟩ = .error fault := by
  rw [decode_opcode] at refused
  split at refused
  · rename_i fault run
    cases refused
    exact ⟨fault, rfl, run⟩
  · cases refused

theorem decode_take_of_lt {s : Bytes} {i : Instruction} {n k : Nat} (decoded : decode s = .ok (i, n))
    (inside : k < n) : ∃ position wanted available,
      decode (s.take k) = .error (.malformed (.truncated position wanted available)) ∧
      position + available = k ∧ available < wanted ∧ position + wanted ≤ n := by
  obtain ⟨op, body, tail, rfl, reads, rfl⟩ := decode_eq_ok_iff.mp decoded
  cases k with
  | zero => exact ⟨0, 1, 0, rfl, rfl, Nat.one_pos, by omega⟩
  | succ k =>
    have part : k < body.length := by omega
    obtain ⟨position, wanted, available, run, place, few, enough⟩ :=
      (Reader.closed_streaming.instruction op).cut i body reads 1 k part
    refine ⟨position, wanted, available, ?_, by omega, few, by omega⟩
    rw [List.take_succ_cons, List.take_append_of_le_length (Nat.le_of_lt part), decode_opcode, run]

theorem decode_append_of_error {s : Bytes} {e : DecodeError} (refused : decode s = .error e)
    (other : ∀ position wanted available, e ≠ .malformed (.truncated position wanted available))
    (tail : Bytes) : decode (s ++ tail) = .error e := by
  rcases decode_cases s with ⟨rfl, short⟩ | ⟨b, rest, rfl, unknown⟩ | ⟨op, rest, rfl⟩
  · rw [short] at refused
    cases refused
    exact absurd rfl (other 0 1 0)
  · have alone := unknown []
    rw [List.append_nil, refused] at alone
    rw [unknown tail, alone]
  · obtain ⟨fault, rfl, run⟩ := decode_opcode_eq_error refused
    have wrong : fault.isTruncation = false := by
      cases fault with
      | truncated position wanted available => exact absurd rfl (other position wanted available)
      | _ => rfl
    have again := (Reader.closed_streaming.instruction op).settled _ _ run wrong tail
    rw [List.cons_append, decode_opcode, again]

theorem decode_eq_truncated {s : Bytes} {position wanted available : Nat}
    (short : decode s = .error (.malformed (.truncated position wanted available))) :
    position + available = s.length ∧ available < wanted := by
  rcases decode_cases s with ⟨rfl, empty⟩ | ⟨b, rest, rfl, unknown⟩ | ⟨op, rest, rfl⟩
  · rw [empty] at short
    cases short
    exact ⟨rfl, Nat.one_pos⟩
  · have alone := unknown []
    rw [List.append_nil, short] at alone
    cases alone
  · obtain ⟨fault, same, run⟩ := decode_opcode_eq_error short
    cases same
    have ⟨place, few⟩ := (Reader.closed_streaming.instruction op).short _ _ _ _ run
    refine ⟨?_, few⟩
    rw [place, Cursor.length, List.length_cons, Nat.add_comm]

/-- The bytes of an instruction decode to it before any others, and no part of them does; what is
refused for another reason than its end is refused whatever follows. -/
theorem decode_streams (s t : Bytes) :
    (∀ i n, decode s = .ok (i, n) →
      decode (s ++ t) = .ok (i, n) ∧ decode (s.take n) = .ok (i, n) ∧
      ∀ k < n, ∃ position wanted available,
        decode (s.take k) = .error (.malformed (.truncated position wanted available)) ∧
        position + available = k ∧ available < wanted ∧ position + wanted ≤ n) ∧
    (∀ e, decode s = .error e →
      (∀ position wanted available, e ≠ .malformed (.truncated position wanted available)) →
      decode (s ++ t) = .error e) ∧
    ∀ position wanted available,
      decode s = .error (.malformed (.truncated position wanted available)) →
      position + available = s.length ∧ available < wanted := by
  refine ⟨?_, ?_, ?_⟩
  · intro i n decoded
    refine ⟨decode_append decoded t, ?_, fun k inside => decode_take_of_lt decoded inside⟩
    rw [← List.append_nil (s.take n)]
    exact decode_take_append decoded []
  · intro e refused other
    exact decode_append_of_error refused other t
  · intro position wanted available
    exact decode_eq_truncated

/-- A call that ends inside the word that completes its last line, and one whose register does not exist:
the second is refused before anything is missed. -/
theorem decode_streams_call :
    let i := Instruction.call 0x80001000 3 4 #v[5, 0, 0, 0, 0, 0, 0, 0] 1
    let s := i.encode
    (decode s = .ok (i, 16) ∧ decode (s ++ s) = .ok (i, 16) ∧
      ∃ position wanted available,
        decode (s.take 13) = .error (.malformed (.truncated position wanted available)) ∧
        position + available = 13 ∧ available < wanted ∧ position + wanted ≤ 16) ∧
    (decode [0xF8, 9] = .error (.malformed (.invalidRegister 9)) ∧
      decode ([0xF8, 9] ++ s) = .error (.malformed (.invalidRegister 9))) ∧
    decode [0xF8, 3, 4, 1, 0x80] = .error (.malformed (.truncated 4 4 1)) ∧
      4 + 1 = [(0xF8 : UInt8), 3, 4, 1, 0x80].length := by
  intro i s
  have whole : decode s = .ok (i, 16) := by
    have normal : i.normalized = i := by decide
    have decoded := Instruction.decode_encode_append (i := i) rfl []
    rwa [List.append_nil, normal] at decoded
  have refused : decode [0xF8, 9] = .error (.malformed (.invalidRegister 9)) := rfl
  have short : decode [0xF8, 3, 4, 1, 0x80] = .error (.malformed (.truncated 4 4 1)) := rfl
  obtain ⟨again, _, parts⟩ := (decode_streams s s).1 i 16 whole
  have stays := (decode_streams [0xF8, 9] s).2.1 _ refused nofun
  obtain ⟨place, _⟩ := (decode_streams [0xF8, 3, 4, 1, 0x80] s).2.2 _ _ _ short
  exact ⟨⟨whole, again, parts 13 (by decide)⟩, ⟨refused, stays⟩, short, place⟩

end LivePatch
