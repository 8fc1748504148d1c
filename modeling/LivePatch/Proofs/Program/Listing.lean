import LivePatch.Proofs.Program.Sweep
import LivePatch.Proofs.Text.Printable

namespace LivePatch

open Text

/-- A line of a listing read back: the offset before the colon, and the bytes of the column behind
it. -/
def row? (line : List Char) : Option (Nat × Bytes) :=
  match line with
  | '0' :: 'x' :: rest =>
    match rest.dropWhile (· ≠ ':') with
    | ':' :: ' ' :: ' ' :: behind => do
      let offset ← numberFrom? 0 (rest.takeWhile (· ≠ ':'))
      (pairs? ((behind.take 17).filter (· ≠ ' '))).map (offset, ·)
    | _ => none
  | _ => none

namespace Text

theorem upperDigit_ne {d : Nat} (small : d < 16) : upperDigit d ≠ ':' ∧ upperDigit d ≠ ' ' := by
  decide +revert

theorem filter_hexBytes (bs : Bytes) :
    (hexBytes bs).toList.filter (· ≠ ' ') = (hexBytes bs).toList := by
  refine List.filter_eq_self.mpr fun c member => ?_
  obtain ⟨d, small, rfl⟩ := exists_digit_of_mem_hexBytes member
  simpa using (upperDigit_ne small).2

/-- The blank between the words of a line is all that is not a digit. -/
theorem filter_hexLine (bs : Bytes) :
    (hexLine bs).toList.filter (· ≠ ' ') = (hexBytes bs).toList := by
  unfold hexLine
  split
  · exact filter_hexBytes bs
  · have whole := hexBytes_append (bs.take 4) (bs.drop 4)
    rw [List.take_append_drop] at whole
    rw [String.toList_append, String.toList_append, List.filter_append, List.filter_append,
      filter_hexBytes, filter_hexBytes, whole]
    simp

theorem length_hexLine_le {bs : Bytes} (short : bs.length ≤ 8) :
    (hexLine bs).toList.length ≤ 17 := by
  unfold hexLine
  split
  · rw [length_toList_hexBytes]
    omega
  · have front : (bs.take 4).length ≤ 4 := List.length_take_le 4 bs
    have back : (bs.drop 4).length = bs.length - 4 := List.length_drop
    rw [String.toList_append, String.toList_append, List.length_append, List.length_append,
      length_toList_hexBytes, length_toList_hexBytes]
    simp
    omega

end Text

namespace Entry

def row (e : Entry) : Nat × Bytes :=
  (e.offset, e.bytes)

theorem row?_label (n : Nat) (behind : List Char) :
    row? (("0x" ++ upperHex 4 n ++ ":  ").toList ++ behind) =
      (pairs? ((behind.take 17).filter (· ≠ ' '))).map (n, ·) := by
  have digits : ∀ c ∈ upperHexDigits 4 n, decide (c ≠ ':') = true := by
    intro c member
    obtain ⟨d, small, rfl⟩ := exists_digit_of_mem_upperHexDigits member
    exact decide_eq_true (upperDigit_ne small).1
  have line : ("0x" ++ upperHex 4 n ++ ":  ").toList ++ behind =
      '0' :: 'x' :: (upperHexDigits 4 n ++ ':' :: ' ' :: ' ' :: behind) := by
    simp [upperHex]
  have label : (upperHexDigits 4 n ++ ':' :: ' ' :: ' ' :: behind).takeWhile (· ≠ ':') =
      upperHexDigits 4 n := by
    rw [List.takeWhile_append_of_pos digits]
    simp
  have column : (upperHexDigits 4 n ++ ':' :: ' ' :: ' ' :: behind).dropWhile (· ≠ ':') =
      ':' :: ' ' :: ' ' :: behind := by
    rw [List.dropWhile_append_of_pos digits]
    simp
  rw [line, row?]
  simp only [column, label, numberFrom?_upperHexDigits]
  rfl

theorem row?_column {bs : Bytes} {behind : List Char} (length : behind.length = 17)
    (digits : behind.filter (· ≠ ' ') = (hexBytes bs).toList) (n : Nat) (later : List Char) :
    row? (("0x" ++ upperHex 4 n ++ ":  ").toList ++ (behind ++ later)) = some (n, bs) := by
  rw [row?_label, List.take_left' length, digits, pairs?_hexBytes]
  rfl

/-- Whatever the remark, the bytes of a line are read back from their column. -/
theorem row?_text {e : Entry} (short : e.bytes.length ≤ 8) : row? e.text.toList = some e.row := by
  have fits := length_hexLine_le short
  show row? e.text.toList = some (e.offset, e.bytes)
  unfold text
  split
  · rename_i remark _
    have length : (padRight 17 (hexLine e.bytes)).toList.length = 17 := by
      rw [padRight, String.toList_append, List.length_append, String.toList_ofList,
        List.length_replicate, ← String.length_toList]
      omega
    have digits : (padRight 17 (hexLine e.bytes)).toList.filter (· ≠ ' ') =
        (hexBytes e.bytes).toList := by
      rw [padRight, String.toList_append, List.filter_append, filter_hexLine]
      simp
    have read := row?_column length digits e.offset ("  " ++ remark).toList
    rw [← String.toList_append, ← String.toList_append] at read
    simpa only [String.append_assoc] using read
  · rw [String.toList_append, row?_label, List.take_of_length_le fits, filter_hexLine, pairs?_hexBytes]
    rfl

theorem printable_text {e : Entry} (remarked : ∀ remark ∈ e.remark, Printable remark) :
    Printable e.text := by
  have label : Printable ("0x" ++ upperHex 4 e.offset ++ ":  ") := by simp +decide
  unfold text
  split
  · rename_i remark noted
    have column := (printable_hexLine e.bytes).padRight 17
    exact ((label.append column).append (by decide)).append (remarked remark noted)
  · exact label.append (printable_hexLine e.bytes)

end Entry

theorem continuation_of_ne_nil {bs : Bytes} (occupied : bs ≠ []) (offset : Nat) :
    continuation offset bs =
      ⟨offset, bs.take 8, none⟩ :: continuation (offset + 8) (bs.drop 8) := by
  rw [continuation, if_neg (by simpa using occupied)]

@[simp]
theorem continuation_nil (offset : Nat) : continuation offset [] = [] := by
  rw [continuation]
  rfl

/-- Induction along the lines of a stream. -/
@[elab_as_elim]
theorem lines_induction {motive : Nat → Bytes → Prop} (done : ∀ offset, motive offset [])
    (line : ∀ offset bs, bs ≠ [] → motive (offset + 8) (bs.drop 8) → motive offset bs)
    (offset : Nat) (bs : Bytes) : motive offset bs := by
  induction offset, bs using continuation.induct with
  | case1 offset bs empty =>
    obtain rfl := List.isEmpty_iff.mp empty
    exact done offset
  | case2 offset bs occupied ih => exact line offset bs (by simpa using occupied) ih

theorem continuation_append {bs : Bytes} (lines : bs.length % 8 = 0) (offset : Nat) (cs : Bytes) :
    continuation offset (bs ++ cs) =
      continuation offset bs ++ continuation (offset + bs.length) cs := by
  induction offset, bs using lines_induction with
  | done offset => simp
  | line offset bs occupied ih =>
    have whole : 8 ≤ bs.length := by
      have := List.length_pos_iff.mpr occupied
      omega
    have later := ih (by rw [List.length_drop]; omega)
    have shifted : offset + 8 + (bs.drop 8).length = offset + bs.length := by
      rw [List.length_drop]
      omega
    rw [continuation_of_ne_nil occupied, continuation_of_ne_nil (by simp [occupied]),
      List.take_append_of_le_length whole, List.drop_append_of_le_length whole, later, shifted]
    rfl

theorem length_continuation {bs : Bytes} (lines : bs.length % 8 = 0) (offset : Nat) :
    8 * (continuation offset bs).length = bs.length := by
  induction offset, bs using lines_induction with
  | done offset => simp
  | line offset bs occupied ih =>
    have := List.length_pos_iff.mpr occupied
    have later := ih (by rw [List.length_drop]; omega)
    rw [List.length_drop] at later
    rw [continuation_of_ne_nil occupied, List.length_cons]
    omega

theorem flatMap_continuation (offset : Nat) (bs : Bytes) :
    (continuation offset bs).flatMap (·.bytes) = bs := by
  induction offset, bs using lines_induction with
  | done offset => simp
  | line offset bs occupied ih =>
    rw [continuation_of_ne_nil occupied, List.flatMap_cons, ih, List.take_append_drop]

theorem offsets_continuation (offset : Nat) (bs : Bytes) :
    (continuation offset bs).map (·.offset) =
      (List.range (continuation offset bs).length).map (offset + 8 * ·) := by
  induction offset, bs using lines_induction with
  | done offset => simp
  | line offset bs occupied ih =>
    rw [continuation_of_ne_nil occupied, List.map_cons, ih, List.length_cons, List.range_succ_eq_map,
      List.map_cons, List.map_map]
    refine congrArg _ (List.map_congr_left fun k _ => ?_)
    simp only [Function.comp_apply]
    omega

theorem length_bytes_continuation {bs : Bytes} (lines : bs.length % 8 = 0) (offset : Nat) :
    ∀ e ∈ continuation offset bs, e.bytes.length = 8 := by
  induction offset, bs using lines_induction with
  | done offset => simp
  | line offset bs occupied ih =>
    have := List.length_pos_iff.mpr occupied
    intro e member
    rw [continuation_of_ne_nil occupied] at member
    rcases List.mem_cons.mp member with rfl | later
    · show (bs.take 8).length = 8
      rw [List.length_take]
      omega
    · exact ih (by rw [List.length_drop]; omega) e later

theorem remark_continuation (offset : Nat) (bs : Bytes) :
    ∀ e ∈ continuation offset bs, e.remark = none := by
  induction offset, bs using lines_induction with
  | done offset => simp
  | line offset bs occupied ih =>
    intro e member
    rw [continuation_of_ne_nil occupied] at member
    rcases List.mem_cons.mp member with rfl | later
    · rfl
    · exact ih e later

namespace Located

/-- The lines of a listing that show an instruction. -/
def lines (l : Located) : List (List Char) :=
  l.entries.map (·.text.toList)

theorem flatMap_lines (ls : List Located) :
    ls.flatMap lines = (ls.flatMap entries).map (·.text.toList) := by
  rw [List.map_flatMap]
  rfl

theorem rows_entries {l : Located} (occupied : l.bytes ≠ []) :
    l.entries.map Entry.row = (continuation l.offset l.bytes).map Entry.row := by
  rw [continuation_of_ne_nil occupied]
  rfl

theorem length_lines {l : Located} (decoded : decode l.bytes = .ok (l.instruction, l.bytes.length)) :
    8 * l.lines.length = l.bytes.length := by
  have ⟨long, whole, _⟩ := Instruction.consumed_of_decode decoded
  have occupied : l.bytes ≠ [] := List.length_pos_iff.mp (by omega)
  have rows := congrArg List.length (rows_entries occupied)
  rw [List.length_map, List.length_map] at rows
  rw [lines, List.length_map, rows, length_continuation whole]

theorem printable_entries (l : Located) : ∀ e ∈ l.entries, Printable e.text := by
  intro e member
  refine Entry.printable_text fun remark noted => ?_
  rcases List.mem_cons.mp member with rfl | later
  · cases noted
    exact l.instruction.printable_text
  · rw [remark_continuation _ _ e later] at noted
    cases noted

end Located

theorem Halt.text_entry (h : Halt) :
    h.entry.text = "0x" ++ upperHex 4 h.offset ++ ":  " ++ padRight 17 (hexLine (h.rest.take 8)) ++
      "  ; ERROR: " ++ h.error.message := by
  rw [show "  ; ERROR: " = "  " ++ "; ERROR: " from rfl, ← String.append_assoc]
  exact (String.append_assoc ..).symm

theorem Halt.printable_entry (h : Halt) : Printable h.entry.text := by
  refine Entry.printable_text fun remark noted => ?_
  cases noted
  exact Printable.append (by decide) h.error.printable_message

namespace Swept

variable {offset : Nat} {bs : Bytes} {ls : List Located}

/-- The lines of the instructions are the lines of the stream. -/
theorem rows_eq (swept : Swept offset bs ls) :
    (ls.flatMap Located.entries).map Entry.row = (continuation offset bs).map Entry.row := by
  induction swept with
  | done => simp
  | @found offset n bs i ls decoded _ ih =>
    have inside := Instruction.consumed_of_decode decoded
    have size : (bs.take n).length = n := by
      rw [List.length_take]
      omega
    have occupied : bs.take n ≠ [] := List.length_pos_iff.mp (by omega)
    have whole : (bs.take n).length % 8 = 0 := by omega
    have first := Located.rows_entries (l := ⟨offset, bs.take n, i⟩) occupied
    have apart := continuation_append whole offset (bs.drop n)
    rw [List.take_append_drop, size] at apart
    rw [List.flatMap_cons, List.map_append, first, ih, apart, List.map_append]

/-- Every line of the instructions is read back. -/
theorem row?_lines (swept : Swept offset bs ls) :
    (ls.flatMap Located.lines).map row? = ((continuation offset bs).map Entry.row).map some := by
  have short : ∀ e ∈ ls.flatMap Located.entries, e.bytes.length ≤ 8 := by
    intro e member
    have row := List.mem_map_of_mem (f := Entry.row) member
    rw [swept.rows_eq] at row
    obtain ⟨shown, inside, same⟩ := List.mem_map.mp row
    have bytes : shown.bytes.length = e.bytes.length := congrArg (·.2.length) same
    have line := length_bytes_continuation swept.length_mod offset shown inside
    omega
  rw [Located.flatMap_lines, ← swept.rows_eq, List.map_map, List.map_map]
  exact List.map_congr_left fun e member => Entry.row?_text (short e member)

/-- A sweep reads a front of the stream, and halts at an instruction that cannot be read if anything
is left. -/
theorem exists_front (before : Array Located) (offset : Nat) (bs : Bytes) :
    ∃ front rest ls halt, bs = front ++ rest ∧ Swept offset front ls ∧
      sweepFrom before offset bs = ⟨before ++ ls.toArray, halt⟩ ∧
      (rest = [] ∧ halt = none ∨
        ∃ e, rest ≠ [] ∧ decode rest = .error e ∧ halt = some ⟨offset + front.length, rest, e⟩) := by
  induction before, offset, bs using sweepFrom.induct with
  | case1 before offset bs empty =>
    obtain rfl := List.isEmpty_iff.mp empty
    exact ⟨[], [], [], none, rfl, .done, Swept.done.sweepFrom_eq before, Or.inl ⟨rfl, rfl⟩⟩
  | case2 before offset bs occupied e refused =>
    have nonempty : bs ≠ [] := by simpa using occupied
    refine ⟨[], bs, [], _, rfl, .done, ?_, Or.inr ⟨e, nonempty, refused, rfl⟩⟩
    rw [sweepFrom_of_error nonempty refused]
    simp
  | case3 before offset bs occupied i n decoded ih =>
    obtain ⟨front, rest, ls, halt, whole, swept, found, ends⟩ := ih
    have inside := Instruction.consumed_of_decode decoded
    have size : (bs.take n).length = n := by
      rw [List.length_take]
      omega
    have again := Swept.front (decode_take_append decoded front) size swept
    refine ⟨bs.take n ++ front, rest, _, halt, ?_, again, ?_, ?_⟩
    · rw [List.append_assoc, ← whole, List.take_append_drop]
    · rw [sweepFrom_of_ok decoded, found]
      simp
    · rw [List.length_append, size, ← Nat.add_assoc]
      exact ends

end Swept

theorem exists_error_iff (bs : Bytes) :
    (∃ e, instructions bs = .error e) ↔ (sweep bs).halt ≠ none := by
  constructor
  · rintro ⟨e, refused⟩ complete
    have ends : sweepFrom #[] 0 bs = ⟨(sweep bs).found, none⟩ := by
      rw [← complete]
      rfl
    obtain ⟨ls, _, swept⟩ := Swept.of_sweepFrom ends
    rw [instructions_eq_ok_iff.mpr ⟨ls, swept, rfl⟩] at refused
    cases refused
  · intro halted
    cases listed : instructions bs with
    | error e => exact ⟨e, rfl⟩
    | ok places =>
      obtain ⟨ls, swept, _⟩ := instructions_eq_ok_iff.mp listed
      rw [swept.sweep_eq] at halted
      exact absurd rfl halted

theorem toList_join_lines (ss : List String) :
    (String.join (ss.map (· ++ "\n"))).toList = ['\n'].intercalate (ss.map String.toList ++ [[]]) := by
  induction ss with
  | nil => simp
  | cons s ss ih =>
    rw [List.map_cons, String.join_cons, String.toList_append, ih, List.map_cons, List.cons_append,
      List.intercalate_cons_of_ne_nil (by simp)]
    simp

theorem printable_listingLines (bs : Bytes) : ∀ line ∈ listingLines bs, Printable line := by
  have entries : ∀ line ∈ (sweep bs).entries.map Entry.text, Printable line := by
    intro line member
    obtain ⟨e, entry, rfl⟩ := List.mem_map.mp member
    rcases List.mem_append.mp entry with shown | halted
    · obtain ⟨l, _, inside⟩ := List.mem_flatMap.mp shown
      exact l.printable_entries e inside
    · obtain ⟨h, _, rfl⟩ := List.mem_map.mp halted
      exact h.printable_entry
  intro line member
  rcases List.mem_append.mp member with above | last
  · rcases List.mem_append.mp above with heading | entry
    · simp only [List.mem_cons, List.not_mem_nil, or_false] at heading
      rcases heading with rfl | rfl | rfl
      · decide
      · show Printable ("; Stream size: " ++ toString bs.length ++ " bytes (" ++
          toString (bs.length / 8) ++ " lines)")
        simp +decide
      · decide
    · exact entries line entry
  · rw [List.mem_singleton.mp last]
    simp +decide

theorem splitOn_listing (bs : Bytes) :
    (listing bs).toList.splitOn '\n' = (listingLines bs).map String.toList ++ [[]] := by
  rw [listing, toList_join_lines]
  refine List.splitOn_intercalate '\n' (fun line member => ?_) (by simp)
  rcases List.mem_append.mp member with shown | closing
  · obtain ⟨s, inside, rfl⟩ := List.mem_map.mp shown
    intro lineEnd
    exact absurd (printable_listingLines bs s inside '\n' lineEnd) (by decide)
  · rw [List.mem_singleton.mp closing]
    simp

theorem map_listingLines {bs : Bytes} {ls : List Located} {halt : Option Halt}
    (found : sweep bs = ⟨ls.toArray, halt⟩) :
    (listingLines bs).map String.toList =
      ["; Code Handler Disassembly".toList,
        ("; Stream size: " ++ toString bs.length ++ " bytes (" ++ toString (bs.length / 8) ++
          " lines)").toList,
        []] ++
      ls.flatMap Located.lines ++ halt.toList.map (·.entry.text.toList) ++
      [("; " ++ toString ls.length ++ " instructions").toList] := by
  have entries : ((sweep bs).entries.map Entry.text).map String.toList =
      ls.flatMap Located.lines ++ halt.toList.map (·.entry.text.toList) := by
    rw [found, Sweep.entries, List.map_map, List.map_append, List.map_map, Located.flatMap_lines]
    rfl
  rw [listingLines, List.map_append, List.map_append, entries, found, ← List.append_assoc]
  rfl

/-- A listing is three lines of heading, the lines of the instructions that stand before the first
one that cannot be read, a line for that one if there is one, and the number of the instructions.
The line for an error has the offset and the bytes at which it arose, and its message. All of it is
printable. The lines of the instructions are read back as the lines of code, in order and
without a gap, and the line for an error is there exactly if the stream has no list of instructions. -/
theorem listing_spells_stream (bs : Bytes) :
    (∀ i : Instruction, Printable i.text) ∧
    ∃ (front rest : Bytes) (ls : List Located) (errors : List (List Char))
        (read : List (Nat × Bytes)),
      bs = front ++ rest ∧ Swept 0 front ls ∧
      (listing bs).toList.splitOn '\n' =
        ["; Code Handler Disassembly".toList,
          ("; Stream size: " ++ toString bs.length ++ " bytes (" ++ toString (bs.length / 8) ++
            " lines)").toList,
          []] ++
        ls.flatMap Located.lines ++ errors ++
        [("; " ++ toString ls.length ++ " instructions").toList, []] ∧
      (∀ line ∈ (listing bs).toList.splitOn '\n', ∀ c ∈ line, IsPrintable c) ∧
      (∀ l ∈ ls, 8 * l.lines.length = l.bytes.length) ∧
      (ls.flatMap Located.lines).map row? = read.map some ∧
      read.map (·.1) = (List.range read.length).map (8 * ·) ∧
      (∀ r ∈ read, r.2.length = 8) ∧ read.flatMap (·.2) = front ∧
      (errors ≠ [] ↔ ∃ e, instructions bs = .error e) ∧
      (rest = [] ∧ errors = [] ∨
        ∃ e, rest ≠ [] ∧ decode rest = .error e ∧
          errors = [("0x" ++ upperHex 4 front.length ++ ":  " ++
            padRight 17 (hexLine (rest.take 8)) ++ "  ; ERROR: " ++ e.message).toList]) := by
  obtain ⟨front, rest, ls, halt, whole, swept, found, ends⟩ := Swept.exists_front #[] 0 bs
  rw [Array.empty_append] at found
  rw [Nat.zero_add] at ends
  refine ⟨Instruction.printable_text, front, rest, ls, halt.toList.map (·.entry.text.toList),
    (continuation 0 front).map Entry.row, whole, swept, ?_, ?_, ?_, swept.row?_lines, ?_, ?_, ?_, ?_, ?_⟩
  · rw [splitOn_listing, map_listingLines found, List.append_assoc _ [_] [_]]
    rfl
  · intro line member c inside
    rw [splitOn_listing] at member
    rcases List.mem_append.mp member with shown | closing
    · obtain ⟨s, listed, rfl⟩ := List.mem_map.mp shown
      exact printable_listingLines bs s listed c inside
    · rw [List.mem_singleton.mp closing] at inside
      cases inside
  · intro l member
    exact Located.length_lines (swept.decoded l member)
  · have offsets := offsets_continuation 0 front
    simp only [Nat.zero_add] at offsets
    rw [List.map_map, List.length_map]
    exact offsets
  · intro r member
    obtain ⟨e, inside, rfl⟩ := List.mem_map.mp member
    exact length_bytes_continuation swept.length_mod 0 e inside
  · rw [List.flatMap_map]
    exact flatMap_continuation 0 front
  · rw [exists_error_iff, sweep, found]
    simp
  · rcases ends with ⟨empty, rfl⟩ | ⟨e, occupied, refused, rfl⟩
    · exact Or.inl ⟨empty, rfl⟩
    · refine Or.inr ⟨e, occupied, refused, ?_⟩
      rw [← Halt.text_entry ⟨front.length, rest, e⟩]
      rfl

-- A string that holds a line end, a semicolon and a quote, before a line of two bytes.
example :
    listing [0x01, 0x00, 0x00, 0x03, 0x80, 0x00, 0x10, 0x00, 0x0A, 0x3B, 0x22, 0, 0, 0, 0, 0, 0xD0, 0] =
      "; Code Handler Disassembly\n; Stream size: 18 bytes (2 lines)\n\n" ++
      "0x0000:  01000003 80001000  string [0x80001000], \"\\n;\\\"\"\n" ++
      "0x0008:  0A3B2200 00000000\n" ++
      "0x0010:  D000               ; ERROR: Malformed instruction: Truncated instruction at offset 0x1: " ++
      "wanted 7 bytes, 1 available\n; 1 instructions\n" := by
  decide +kernel

end LivePatch
