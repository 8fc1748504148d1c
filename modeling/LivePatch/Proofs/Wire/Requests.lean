import LivePatch.Proofs.Wire.Reading

namespace LivePatch

namespace Cursor

/-- What can be asked of a cursor. -/
inductive Request where
  | byte
  | half
  | word
  | bytes (count : Nat)
  | skip (count : Nat)

/-- What a request gives. -/
inductive Reply where
  | byte (value : UInt8)
  | half (value : UInt16)
  | word (value : UInt32)
  | bytes (bs : Bytes)
  | skipped

namespace Request

/-- Number of bytes that a request asks for. -/
def width : Request → Nat
  | byte => 1
  | half => 2
  | word => 4
  | bytes count | skip count => count

def reader : Request → Reader Reply
  | byte => Reply.byte <$> Reader.byte
  | half => Reply.half <$> Reader.half
  | word => Reply.word <$> Reader.word
  | bytes count => Reply.bytes <$> Reader.bytes count
  | skip count => (fun _ => Reply.skipped) <$> Reader.skip count

/-- The reply to a request that is met by the bytes `next`: they are the big-endian bytes of a number,
or are given as they are, or are passed over. -/
def Answered (next : Bytes) : Request → Reply → Prop
  | byte, .byte value => next = [value]
  | half, .half value => next = be16 value
  | word, .word value => next = be32 value
  | bytes _, .bytes bs => next = bs
  | skip _, .skipped => True
  | _, _ => False

/-- The reply that is made of the bytes taken for a request. -/
def reply (next : Bytes) : Request → Reply
  | byte => .byte (UInt8.ofNat (ofBigEndian next))
  | half => .half (UInt16.ofNat (ofBigEndian next))
  | word => .word (UInt32.ofNat (ofBigEndian next))
  | bytes _ => .bytes next
  | skip _ => .skipped

theorem reader_eq (q : Request) : q.reader = (q.reply ·) <$> Reader.bytes q.width := by
  cases q with
  | byte => simp only [reader, Reader.byte, reply, width, map_eq_pure_bind, bind_assoc, pure_bind]
  | half => simp only [reader, Reader.half, reply, width, map_eq_pure_bind, bind_assoc, pure_bind]
  | word => simp only [reader, Reader.word, reply, width, map_eq_pure_bind, bind_assoc, pure_bind]
  | bytes count => rfl
  | skip count => simp only [reader, Reader.skip, reply, width, map_eq_pure_bind, bind_assoc, pure_bind]

theorem answered_reply {q : Request} {next : Bytes} (length : next.length = q.width) :
    q.Answered next (q.reply next) := by
  cases q with
  | byte =>
    obtain ⟨b, rfl⟩ := List.length_eq_one_iff.mp length
    simp [Answered, reply, ofBigEndian, ofLittleEndian]
  | half => exact (be16_ofBigEndian length).symm
  | word => exact (be32_ofBigEndian length).symm
  | bytes count => exact Eq.refl next
  | skip count => trivial

end Request

/-- Tries a request. One that fails gives no new cursor, so that the old one stays in use. -/
def attempt (c : Cursor) (q : Request) : Except Fault Reply × Cursor :=
  match q.reader c with
  | .ok (reply, next) => (.ok reply, next)
  | .error fault => (.error fault, c)

/-- The outcomes of requests that are tried one after the other, and the cursor after them. -/
def attempts (c : Cursor) : List Request → List (Except Fault Reply) × Cursor
  | [] => ([], c)
  | q :: qs =>
    let first := c.attempt q
    let later := first.2.attempts qs
    (first.1 :: later.1, later.2)

/-- The bytes that a request returns or passes over. -/
def spent (c : Cursor) (q : Request) : Bytes :=
  match (c.attempt q).1 with
  | .ok (.byte value) => [value]
  | .ok (.half value) => be16 value
  | .ok (.word value) => be32 value
  | .ok (.bytes bs) => bs
  | .ok .skipped => c.rest.take q.width
  | .error _ => []

def spentBy (c : Cursor) : List Request → Bytes
  | [] => []
  | q :: qs => c.spent q ++ (c.attempt q).2.spentBy qs

theorem take_of_le {c : Cursor} {count : Nat} (enough : count ≤ c.rest.length) :
    c.take count = .ok (c.rest.take count, ⟨c.position + count, c.rest.drop count⟩) := by
  rw [take, if_pos ((fits_iff _ _).mpr enough)]

theorem take_of_lt {c : Cursor} {count : Nat} (short : c.rest.length < count) :
    c.take count = .error (.truncated c.position count c.rest.length) := by
  rw [take, if_neg]
  rw [fits_iff]
  omega

theorem attempt_of_le {c : Cursor} {q : Request} (enough : q.width ≤ c.rest.length) :
    c.attempt q = (.ok (q.reply (c.rest.take q.width)),
      ⟨c.position + q.width, c.rest.drop q.width⟩) := by
  have taken : Reader.bytes q.width c = _ := take_of_le enough
  simp only [attempt, q.reader_eq, Reader.map_apply, taken, Except.bind]

theorem attempt_of_lt {c : Cursor} {q : Request} (short : c.rest.length < q.width) :
    c.attempt q = (.error (.truncated c.position q.width c.rest.length), c) := by
  have refused : Reader.bytes q.width c = _ := take_of_lt short
  simp only [attempt, q.reader_eq, Reader.map_apply, refused, Except.bind]

theorem spent_of_le {c : Cursor} {q : Request} (enough : q.width ≤ c.rest.length) :
    c.spent q = c.rest.take q.width := by
  have answered := Request.answered_reply (List.length_take_of_le enough)
  rw [spent, attempt_of_le enough]
  cases q with
  | byte | half | word | bytes => exact answered.symm
  | skip count => rfl

theorem spent_of_lt {c : Cursor} {q : Request} (short : c.rest.length < q.width) :
    c.spent q = [] := by
  rw [spent, attempt_of_lt short]

/-- A request that changes nothing leaves its own outcome behind and no other trace. -/
theorem attempts_insert {c : Cursor} {before : List Request} {q : Request}
    (idle : ((c.attempts before).2.attempt q).2 = (c.attempts before).2) (later : List Request) :
    c.attempts (before ++ q :: later) =
      ((c.attempts (before ++ later)).1.insertIdx before.length ((c.attempts before).2.attempt q).1,
        (c.attempts (before ++ later)).2) := by
  induction before generalizing c with
  | nil =>
    have unmoved : (c.attempt q).2 = c := idle
    simp only [List.nil_append, attempts, unmoved, List.length_nil, List.insertIdx_zero]
  | cons first before ih =>
    have later := ih (c := (c.attempt first).2) idle
    simp only [List.cons_append, attempts, later, List.length_cons, List.insertIdx_succ_cons]

/-- The cursor stands in `bs`, and everything behind its position is still to be read. -/
structure In (bs : Bytes) (c : Cursor) : Prop where
  position_le : c.position ≤ bs.length
  rest_eq : c.rest = bs.drop c.position

namespace In

variable {bs : Bytes} {c : Cursor}

theorem ofBytes (bs : Bytes) : In bs (ofBytes bs) :=
  ⟨Nat.zero_le _, rfl⟩

theorem length_rest (inside : In bs c) : c.rest.length = bs.length - c.position := by
  rw [inside.rest_eq, List.length_drop]

theorem attempt (inside : In bs c) (q : Request) : In bs (c.attempt q).2 := by
  have left := inside.length_rest
  have bound := inside.position_le
  by_cases enough : q.width ≤ c.rest.length
  · rw [attempt_of_le enough]
    refine ⟨by show c.position + q.width ≤ bs.length; omega, ?_⟩
    show c.rest.drop q.width = bs.drop (c.position + q.width)
    rw [inside.rest_eq, List.drop_drop]
  · rw [attempt_of_lt (by omega)]
    exact inside

theorem attempts (inside : In bs c) (qs : List Request) : In bs (c.attempts qs).2 := by
  induction qs generalizing c with
  | nil => exact inside
  | cons q qs ih => exact ih (inside.attempt q)

end In

theorem position_le_attempt (c : Cursor) (q : Request) : c.position ≤ (c.attempt q).2.position := by
  by_cases enough : q.width ≤ c.rest.length
  · rw [attempt_of_le enough]
    exact Nat.le_add_right _ _
  · have kept : (c.attempt q).2.position = c.position := by
      rw [attempt_of_lt (by omega)]
    omega

theorem position_le_attempts (c : Cursor) (qs : List Request) :
    c.position ≤ (c.attempts qs).2.position := by
  induction qs generalizing c with
  | nil => exact Nat.le_refl _
  | cons q qs ih => exact Nat.le_trans (c.position_le_attempt q) (ih _)

theorem In.spentBy {bs : Bytes} {c : Cursor} (inside : In bs c) (qs : List Request) :
    bs.take c.position ++ c.spentBy qs = bs.take (c.attempts qs).2.position := by
  induction qs generalizing c with
  | nil => simp [Cursor.spentBy, Cursor.attempts]
  | cons q qs ih =>
    have later := ih (inside.attempt q)
    rw [Cursor.spentBy, Cursor.attempts, ← later, ← List.append_assoc]
    congr 1
    by_cases enough : q.width ≤ c.rest.length
    · rw [spent_of_le enough, attempt_of_le enough, inside.rest_eq, List.take_add]
    · rw [spent_of_lt (by omega), attempt_of_lt (by omega), List.append_nil]

/-- Whatever was tried before on a cursor over `bs`, it stands in `bs` and has spent exactly the bytes
before its position. The next request gets its bytes if there are enough, and moves on by their number.
If not, it tells where how many were missing, the cursor stays, and without that request everything else
would have been the same. No request moves the cursor back. -/
theorem requests_spend_exactly (bs : Bytes) (before : List Request) (q : Request)
    (later : List Request) :
    let start := ofBytes bs
    let c := (start.attempts before).2
    let remaining := bs.length - c.position
    c.position ≤ bs.length ∧ c.rest = bs.drop c.position ∧
    start.spentBy before = bs.take c.position ∧
    c.position ≤ (c.attempts later).2.position ∧ (c.attempts later).2.position ≤ bs.length ∧
    if q.width ≤ remaining then
      ∃ reply next, c.attempt q = (.ok reply, next) ∧ next.position = c.position + q.width ∧
        q.Answered ((bs.drop c.position).take q.width) reply
    else
      c.attempt q = (.error (.truncated c.position q.width remaining), c) ∧
      start.attempts (before ++ q :: later) =
        ((start.attempts (before ++ later)).1.insertIdx before.length
          (.error (.truncated c.position q.width remaining)), (start.attempts (before ++ later)).2) := by
  intro start c remaining
  have opening : In bs start := .ofBytes bs
  have inside : In bs c := opening.attempts before
  have left : c.rest.length = remaining := inside.length_rest
  refine ⟨inside.position_le, inside.rest_eq, opening.spentBy before, c.position_le_attempts later,
    (inside.attempts later).position_le, ?_⟩
  split
  · rename_i enough
    have fit : q.width ≤ c.rest.length := by omega
    refine ⟨_, _, attempt_of_le fit, rfl, ?_⟩
    rw [← inside.rest_eq]
    exact Request.answered_reply (List.length_take_of_le fit)
  · rename_i short
    have failed := attempt_of_lt (show c.rest.length < q.width by omega)
    rw [left] at failed
    refine ⟨failed, ?_⟩
    have idle : (c.attempt q).2 = c := by rw [failed]
    have unseen := attempts_insert idle later
    rwa [failed] at unseen

/-- A count far beyond the end, and a word of which two bytes are missing, between reads that succeed. -/
example :
    ((ofBytes [1, 2, 3, 4]).attempts [.half, .skip 0xFFFFFFFFFFFFFFFF, .word, .byte]).2 = ⟨3, [4]⟩ := by
  decide +kernel

end Cursor

end LivePatch
