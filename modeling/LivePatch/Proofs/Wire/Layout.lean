import LivePatch.Proofs.Wire.RoundTrip

namespace LivePatch

/-- The big-endian number in `size` bytes from `offset` on. -/
def numberAt (bs : Bytes) (offset size : Nat) : Nat :=
  ofBigEndian ((bs.drop offset).take size)

def Width.all : List Width :=
  [.byte, .half, .word]

/-- What a layout fixes about the bytes of an instruction. -/
inductive Field where
  /-- A number of `size` bytes at `offset`. -/
  | number (offset size value : Nat)
  /-- The upper half of the mode byte. -/
  | addressing (a : Addressing)
  /-- The lower half of the mode byte, which may name any of some widths. -/
  | width (allowed : List Width)
  /-- The bytes after the first line. How many units of them there are stands in `size` bytes at
  `offset`. -/
  | payload (offset size unit : Nat) (bytes : Bytes)
deriving DecidableEq

/-- The bytes `bs` hold the field. -/
def Field.In (bs : Bytes) : Field → Prop
  | number offset size value => numberAt bs offset size = value
  | addressing a => numberAt bs 1 1 / 16 = a.nibble.toNat
  | width allowed => ∃ w ∈ allowed, numberAt bs 1 1 % 16 = w.nibble.toNat
  | payload offset size unit bytes =>
    numberAt bs offset size * unit = bytes.length ∧ bytes <+: bs.drop 8

instance (bs : Bytes) (f : Field) : Decidable (f.In bs) :=
  match f with
  | .number .. | .addressing _ => inferInstanceAs (Decidable (_ = _))
  | .width allowed => inferInstanceAs (Decidable (∃ w ∈ allowed, _))
  | .payload .. => inferInstanceAs (Decidable (_ ∧ _))

namespace Instruction

/-- An address operand, whose mode byte may name any of some widths, and other fields. -/
def operandFields (t : Target) (allowed : List Width) (others : List Field) : List Field :=
  .addressing t.addressing :: .width allowed :: .number 4 4 t.address.toNat :: others

/-- The second operand of register arithmetic. -/
def sourceField : Source → Field
  | .register r => .number 3 1 r.val
  | .literal value => .number 4 4 value.toNat

/-- The words after the first line. -/
def argumentFields (arguments : List UInt32) : List Field :=
  arguments.zipIdx.map fun (argument, k) => .number (8 + 4 * k) 4 argument.toNat

/-- The fields of an instruction. Its other bytes may be anything. -/
def layout (i : Instruction) : List Field :=
  .number 0 1 i.opcode.byte.toNat ::
    match i with
    | write target width value => operandFields target [width] [.number 8 4 value.toNat]
    | writeString target bytes =>
      [.addressing target.addressing, .number 4 4 target.address.toNat, .payload 2 2 1 bytes]
    | writeSeries target width value iterations step increment =>
      operandFields target [width] [.number 2 2 iterations.toNat, .number 8 4 value.toNat,
        .number 12 4 step.toNat, .number 16 4 increment.toNat]
    | fill target value length =>
      operandFields target Width.all [.number 8 4 value.toNat, .number 12 4 length.toNat]
    | test _ target width value upper =>
      operandFields target [width] [.number 8 4 value.toNat, .number 12 4 upper.toNat]
    | loadInteger target width register | storeInteger target width register =>
      operandFields target [width] [.number 3 1 register.val]
    | loadFloat target register | storeFloat target register =>
      operandFields target Width.all [.number 3 1 register.val]
    | integerArithmetic arithmetic destination source =>
      [.number 1 1 (IntegerOperation.code ⟨arithmetic, source.isLiteral⟩).toNat,
        .number 2 1 destination.val, sourceField source]
    | floatArithmetic arithmetic destination source =>
      [.number 1 1 (FloatOperation.code (.arithmetic arithmetic source.isLiteral)).toNat,
        .number 2 1 destination.val, sourceField source]
    | floatToInteger source destination =>
      [.number 1 1 FloatOperation.toInteger.code.toNat, .number 2 1 source.val,
        .number 3 1 destination.val]
    | loadPointer target lower upper =>
      operandFields target Width.all [.number 8 4 lower.toNat, .number 12 4 upper.toNat]
    | timer word | setPointer word => [.number 4 4 word.toNat]
    | offsetPointer offset => [.number 4 4 offset.toUInt32.toNat]
    | native code => [.payload 2 2 8 code]
    | systemCall code => [.number 2 2 code.toNat]
    | corrupt start stop wanted replacement =>
      [.number 4 4 start.toNat, .number 8 4 stop.toNat, .number 12 4 wanted.toNat,
        .number 16 4 replacement.toNat]
    | search template index startHigh stopHigh =>
      [.payload 1 1 1 template, .number 2 2 index.toNat, .number 4 2 startHigh.toNat,
        .number 6 2 stopHigh.toNat]
    | call address low high _ count =>
      .number 1 1 low.val :: .number 2 1 high.val :: .number 3 1 count.toNat ::
        .number 4 4 address.toNat :: argumentFields i.callArguments
    | resetTimer | terminator | noOperation | timerEnd => []

/-- A call counts no more arguments than it has, and those that it does not supply are zero. -/
def countsArguments : Instruction → Bool
  | call _ _ _ arguments count =>
    count ≤ 8 ∧ ∀ k : Fin 8, count.toNat ≤ k.val → arguments.get k = 0
  | _ => true

/-- `i.Laid bs`: the bytes `bs` are laid out as those of `i`. -/
structure Laid (i : Instruction) (bs : Bytes) : Prop where
  length : bs.length = i.encodedLength
  counted : i.countsArguments = true
  fields : ∀ f ∈ i.layout, f.In bs

instance (i : Instruction) (bs : Bytes) : Decidable (i.Laid bs) :=
  decidable_of_iff (bs.length = i.encodedLength ∧ i.countsArguments = true ∧ ∀ f ∈ i.layout, f.In bs)
    ⟨fun ⟨length, counted, fields⟩ => ⟨length, counted, fields⟩,
      fun ⟨length, counted, fields⟩ => ⟨length, counted, fields⟩⟩

end Instruction

section Numbers

@[simp]
theorem numberAt_cons_zero (b : UInt8) (bs : Bytes) : numberAt (b :: bs) 0 1 = b.toNat := by
  simp [numberAt, ofBigEndian, ofLittleEndian]

@[simp]
theorem numberAt_cons_succ (b : UInt8) (bs : Bytes) (k size : Nat) :
    numberAt (b :: bs) (k + 1) size = numberAt bs k size := rfl

@[simp]
theorem numberAt_half (w : UInt16) (bs : Bytes) : numberAt (be16 w ++ bs) 0 2 = w.toNat := by
  rw [numberAt, List.drop_zero, List.take_left' (length_be16 w), value_be16]

@[simp]
theorem numberAt_highByte (w : UInt16) (bs : Bytes) :
    numberAt (be16 w ++ bs) 0 1 = (highByte w).toNat :=
  numberAt_cons_zero (highByte w) (lowByte w :: bs)

@[simp]
theorem numberAt_lowByte (w : UInt16) (bs : Bytes) :
    numberAt (be16 w ++ bs) 1 1 = (lowByte w).toNat :=
  numberAt_cons_zero (lowByte w) bs

@[simp]
theorem numberAt_half_append (w : UInt16) (bs : Bytes) (k size : Nat) :
    numberAt (be16 w ++ bs) (k + 2) size = numberAt bs k size := rfl

@[simp]
theorem numberAt_word (w : UInt32) (bs : Bytes) : numberAt (be32 w ++ bs) 0 4 = w.toNat := by
  rw [numberAt, List.drop_zero, List.take_left' (length_be32 w), value_be32]

@[simp]
theorem numberAt_word_append (w : UInt32) (bs : Bytes) (k size : Nat) :
    numberAt (be32 w ++ bs) (k + 4) size = numberAt bs k size := rfl

@[simp]
theorem drop_half (w : UInt16) (bs : Bytes) (k : Nat) : (be16 w ++ bs).drop (k + 2) = bs.drop k := rfl

@[simp]
theorem drop_word (w : UInt32) (bs : Bytes) (k : Nat) : (be32 w ++ bs).drop (k + 4) = bs.drop k := rfl

theorem drop_spare {spare : Bytes} {n : Nat} (reserved : spare.length = n) (bs : Bytes) (k : Nat) :
    (spare ++ bs).drop (k + n) = bs.drop k := by
  rw [Nat.add_comm, ← List.drop_drop, List.drop_left' reserved]

theorem numberAt_spare {spare : Bytes} {n : Nat} (reserved : spare.length = n) (bs : Bytes)
    (k size : Nat) : numberAt (spare ++ bs) (k + n) size = numberAt bs k size := by
  rw [numberAt, drop_spare reserved, numberAt]

theorem numberAt_encodeWords {ws : List UInt32} {w : UInt32} {k : Nat} (there : ws[k]? = some w)
    (bs : Bytes) : numberAt (Instruction.encodeWords ws ++ bs) (4 * k) 4 = w.toNat := by
  induction ws generalizing k with
  | nil => cases there
  | cons v ws ih =>
    have split : Instruction.encodeWords (v :: ws) = be32 v ++ Instruction.encodeWords ws := rfl
    rw [split, List.append_assoc]
    cases k with
    | zero =>
      cases there
      exact numberAt_word _ _
    | succ k => exact ih there

theorem exists_byte {bs : Bytes} {n : Nat} (size : bs.length = n + 1) :
    ∃ b rest, bs = b :: rest ∧ rest.length = n := by
  obtain ⟨b, rest, rfl⟩ := List.exists_cons_of_length_eq_add_one size
  exact ⟨b, rest, rfl, Nat.succ.inj size⟩

theorem exists_half {bs : Bytes} {n : Nat} (size : bs.length = n + 2) :
    ∃ (w : UInt16) (rest : Bytes), bs = be16 w ++ rest ∧ rest.length = n := by
  have front : (bs.take 2).length = 2 := List.length_take_of_le (by omega)
  refine ⟨UInt16.ofNat (ofBigEndian (bs.take 2)), bs.drop 2, ?_, ?_⟩
  · rw [be16_ofBigEndian front, List.take_append_drop]
  · rw [List.length_drop, size, Nat.add_sub_cancel]

theorem exists_word {bs : Bytes} {n : Nat} (size : bs.length = n + 4) :
    ∃ (w : UInt32) (rest : Bytes), bs = be32 w ++ rest ∧ rest.length = n := by
  have front : (bs.take 4).length = 4 := List.length_take_of_le (by omega)
  refine ⟨UInt32.ofNat (ofBigEndian (bs.take 4)), bs.drop 4, ?_, ?_⟩
  · rw [be32_ofBigEndian front, List.take_append_drop]
  · rw [List.length_drop, size, Nat.add_sub_cancel]

theorem exists_two_words {bs : Bytes} (size : bs.length = 8) :
    ∃ (v w : UInt32) (rest : Bytes), bs = be32 v ++ (be32 w ++ rest) ∧ rest = [] := by
  obtain ⟨v, _, rfl, left⟩ := exists_word (n := 4) size
  obtain ⟨w, rest, rfl, ended⟩ := exists_word (n := 0) left
  exact ⟨v, w, rest, rfl, List.eq_nil_of_length_eq_zero ended⟩

/-- Words that stand at their offsets stand one after another. -/
theorem encodeWords_prefix {ws : List UInt32} {bs : Bytes} (enough : ws.length * 4 ≤ bs.length)
    (stand : ∀ k w, ws[k]? = some w → numberAt bs (4 * k) 4 = w.toNat) :
    Instruction.encodeWords ws <+: bs := by
  induction ws generalizing bs with
  | nil => exact List.nil_prefix
  | cons v ws ih =>
    rw [List.length_cons] at enough
    have line : 4 ≤ bs.length := by omega
    obtain ⟨n, size⟩ := Nat.exists_eq_add_of_le' line
    obtain ⟨w, rest, rfl, rfl⟩ := exists_word size
    have first : w = v := by
      have value := stand 0 v rfl
      rw [Nat.mul_zero, numberAt_word] at value
      exact UInt32.toNat_inj.mp value
    have others : Instruction.encodeWords ws <+: rest := by
      refine ih (by omega) ?_
      intro k u there
      exact stand (k + 1) u there
    have split : Instruction.encodeWords (v :: ws) = be32 v ++ Instruction.encodeWords ws := rfl
    rw [split, first, List.prefix_append_right_inj]
    exact others

end Numbers

theorem be16_eq_bytes (w : UInt16) : be16 w = [highByte w, lowByte w] := rfl

theorem Register.toNat_toByte (r : Register) : r.toByte.toNat = r.val := by
  revert r
  decide

@[simp]
theorem Register.toNat_eq_val_iff (b : UInt8) (r : Register) : b.toNat = r.val ↔ b = r.toByte := by
  rw [← r.toNat_toByte, UInt8.toNat_inj]

theorem Width.mem_all (w : Width) : w ∈ Width.all := by
  cases w <;> decide

theorem Width.exists_modeByte_eq (a : Addressing) (w : Width) :
    ∃ v ∈ Width.all, modeByte a w = modeByte a v :=
  ⟨w, w.mem_all, rfl⟩

namespace Field

@[simp]
theorem number_in (bs : Bytes) (offset size value : Nat) :
    (number offset size value).In bs ↔ numberAt bs offset size = value := Iff.rfl

@[simp]
theorem payload_in (bs : Bytes) (offset size unit : Nat) (bytes : Bytes) :
    (payload offset size unit bytes).In bs ↔
      numberAt bs offset size * unit = bytes.length ∧ bytes <+: bs.drop 8 := Iff.rfl

@[simp]
theorem addressing_in (b mode : UInt8) (bs : Bytes) (a : Addressing) :
    (addressing a).In (b :: mode :: bs) ↔ upperNibble mode = a.nibble := by
  rw [In, numberAt_cons_succ, numberAt_cons_zero, ← UInt8.toNat_inj, upperNibble, UInt8.toNat_div]
  rfl

@[simp]
theorem width_in (b mode : UInt8) (bs : Bytes) (allowed : List Width) :
    (width allowed).In (b :: mode :: bs) ↔ ∃ w ∈ allowed, lowerNibble mode = w.nibble := by
  rw [In, numberAt_cons_succ, numberAt_cons_zero]
  simp only [← UInt8.toNat_inj, lowerNibble, UInt8.toNat_mod]
  rfl

end Field

namespace Instruction

section Line

variable (b mode : UInt8) (field : UInt16) (base : UInt32) (rest : Bytes)

@[simp]
theorem operandFields_in (target : Target) (allowed : List Width) (others : List Field) :
    (∀ f ∈ operandFields target allowed others,
        f.In (b :: mode :: (be16 field ++ (be32 base ++ rest)))) ↔
      (∃ w ∈ allowed, mode = modeByte target.addressing w) ∧ base = target.address ∧
        ∀ f ∈ others, f.In (b :: mode :: (be16 field ++ (be32 base ++ rest))) := by
  simp only [operandFields, List.forall_mem_cons, Field.addressing_in, Field.width_in, Field.number_in,
    numberAt_cons_succ, numberAt_half_append, numberAt_word, UInt32.toNat_inj]
  constructor
  · rintro ⟨upper, ⟨w, member, lower⟩, same, further⟩
    exact ⟨⟨w, member, eq_modeByte upper lower⟩, same, further⟩
  · rintro ⟨⟨w, member, rfl⟩, same, further⟩
    exact ⟨upperNibble_modeByte _ w, ⟨w, member, lowerNibble_modeByte _ w⟩, same, further⟩

@[simp]
theorem sourceField_in (source : Source) :
    (sourceField source).In (b :: mode :: (be16 field ++ (be32 base ++ rest))) ↔
      source.In field base := by
  cases source <;> simp [sourceField, Source.In, UInt32.toNat_inj]

end Line

theorem argumentFields_in (bs : Bytes) (arguments : List UInt32) :
    (∀ f ∈ argumentFields arguments, f.In bs) ↔
      ∀ k w, arguments[k]? = some w → numberAt (bs.drop 8) (4 * k) 4 = w.toNat := by
  have shifted (k : Nat) : numberAt bs (8 + 4 * k) 4 = numberAt (bs.drop 8) (4 * k) 4 := by
    rw [numberAt, numberAt, List.drop_drop]
  constructor
  · intro stand k w there
    have member : (w, k) ∈ arguments.zipIdx := List.mem_zipIdx_iff_getElem?.mpr there
    rw [← shifted]
    exact stand _ (List.mem_map_of_mem member)
  · intro stand f member
    obtain ⟨⟨w, k⟩, there, rfl⟩ := List.mem_map.mp member
    rw [Field.number_in, shifted]
    exact stand k w (List.mem_zipIdx_iff_getElem?.mp there)

theorem encodedLength_of_fixed {i : Instruction} {n : Nat} (fixed : i.opcode.fixedLength? = some n) :
    i.encodedLength = n := by
  cases i with
  | writeString | native | search | call => cases fixed
  | _ =>
    cases fixed
    rfl

theorem normalized_of_countsArguments {i : Instruction} (counted : i.countsArguments = true) :
    i.normalized = i := by
  cases i with
  | call address low high arguments count =>
    have unsupplied_zero := (of_decide_eq_true counted).2
    simp only [normalized]
    congr 1
    apply Vector.ext
    intro k inside
    rw [Vector.getElem_ofFn]
    split
    · rfl
    · rename_i unsupplied
      exact (unsupplied_zero ⟨k, inside⟩ (Nat.le_of_not_lt unsupplied)).symm
  | _ => rfl

theorem Image.countsArguments {i : Instruction} {bs : Bytes} (image : i.Image bs) :
    i.countsArguments = true := by
  cases image with
  | @call address low high supplied count pad limit counted padding =>
    refine decide_eq_true ⟨limit, fun k unsupplied => ?_⟩
    have beyond : supplied[k.val]? = none := List.getElem?_eq_none (by omega)
    have slot : (Vector.ofFn fun i : Fin 8 => supplied.getD i.val 0).get k = supplied.getD k.val 0 :=
      Vector.getElem_ofFn k.isLt
    rw [slot, List.getD_eq_getElem?_getD, beyond, Option.getD_none]
  | _ => rfl

theorem callArguments_supplied (address : UInt32) (low high : Register) {supplied : List UInt32}
    {count : UInt8} (limit : count ≤ 8) (counted : supplied.length = count.toNat) :
    (call address low high (Vector.ofFn fun k => supplied.getD k.val 0) count).callArguments =
      supplied := by
  have bound : count.toNat ≤ 8 := limit
  apply List.ext_getElem
  · rw [length_callArguments _ _ _ _ limit, counted]
  · intro k _ inside
    simp [callArguments, inside]

/-- The fields of an image are there whatever follows it. -/
theorem Image.fields {i : Instruction} {bs : Bytes} (image : i.Image bs) (tail : Bytes) :
    ∀ f ∈ i.layout, f.In (bs ++ tail) := by
  simp only [layout]
  cases image with
  | call limit counted padding =>
    rw [callArguments_supplied _ _ _ limit counted]
    simp [opcode, argumentFields_in, Register.toNat_toByte]
    intro k w there
    exact numberAt_encodeWords there _
  | writeString addressing length padding =>
    simp [encodeLine, opcode, addressing, length]
  | search counted padding => simp [opcode, counted]
  | native reserved unused length =>
    simp [opcode, numberAt_spare reserved, drop_spare reserved, drop_spare unused, length]
  | integerArithmetic named second | floatArithmetic named second =>
    simp [encodeLine, opcode, named, second]
  | floatToInteger base first second => simp [encodeLine, opcode, first, second]
  | loadInteger named | storeInteger named => simp [encodeLine, opcode, named]
  | loadFloat width named | storeFloat width named =>
    simp [encodeLine, opcode, named, Width.exists_modeByte_eq]
  | fill width field | loadPointer width field =>
    simp [encodeLine, opcode, Width.exists_modeByte_eq]
  | write | writeSeries | test => simp [encodeLine, opcode]
  | timer reserved | offsetPointer reserved | setPointer reserved | systemCall reserved
  | corrupt reserved => simp [opcode, numberAt_spare reserved]
  | resetTimer | terminator | noOperation | timerEnd => simp [opcode]

/-- Bytes that are laid out as those of an instruction begin with a line of its opcode. -/
theorem Laid.line {i : Instruction} {bs : Bytes} (laid : i.Laid bs) :
    ∃ mode field base rest, bs = i.opcode.byte :: mode :: (be16 field ++ (be32 base ++ rest)) ∧
      rest.length + 8 = i.encodedLength := by
  obtain ⟨n, total⟩ := Nat.exists_eq_add_of_le' i.eight_le_encodedLength
  obtain ⟨b, _, rfl, afterOpcode⟩ := exists_byte (laid.length.trans total)
  obtain ⟨mode, _, rfl, afterMode⟩ := exists_byte afterOpcode
  obtain ⟨field, _, rfl, afterField⟩ := exists_half afterMode
  obtain ⟨base, rest, rfl, size⟩ := exists_word afterField
  have first := laid.fields _ List.mem_cons_self
  rw [Field.number_in, numberAt_cons_zero] at first
  exact ⟨mode, field, base, rest, by rw [UInt8.toNat_inj.mp first], by rw [size, total]⟩

theorem Laid.image_of_one_line {i : Instruction} {bs : Bytes} (laid : i.Laid bs)
    (line : i.opcode.fixedLength? = some 8) : i.Image bs := by
  obtain ⟨mode, field, base, rest, rfl, size⟩ := laid.line
  have ended : rest = [] := by
    rw [encodedLength_of_fixed line] at size
    exact List.eq_nil_of_length_eq_zero (Nat.add_right_cancel size)
  have fields := laid.fields
  simp only [layout] at fields
  cases i with
  | loadInteger target width register =>
    simp at fields
    obtain ⟨rfl, rfl, named⟩ := fields
    have image : (loadInteger target width register).Image _ := .loadInteger named
    simpa [encodeLine, opcode, ended] using image
  | storeInteger target width register =>
    simp at fields
    obtain ⟨rfl, rfl, named⟩ := fields
    have image : (storeInteger target width register).Image _ := .storeInteger named
    simpa [encodeLine, opcode, ended] using image
  | loadFloat target register =>
    simp at fields
    obtain ⟨⟨width, _, rfl⟩, rfl, named⟩ := fields
    have image : (loadFloat target register).Image _ := .loadFloat width named
    simpa [encodeLine, opcode, ended] using image
  | storeFloat target register =>
    simp at fields
    obtain ⟨⟨width, _, rfl⟩, rfl, named⟩ := fields
    have image : (storeFloat target register).Image _ := .storeFloat width named
    simpa [encodeLine, opcode, ended] using image
  | integerArithmetic arithmetic destination source =>
    simp [UInt8.toNat_inj] at fields
    obtain ⟨rfl, named, second⟩ := fields
    have image : (integerArithmetic arithmetic destination source).Image _ :=
      .integerArithmetic named second
    simpa [encodeLine, opcode, ended] using image
  | floatArithmetic arithmetic destination source =>
    simp [UInt8.toNat_inj] at fields
    obtain ⟨rfl, named, second⟩ := fields
    have image : (floatArithmetic arithmetic destination source).Image _ :=
      .floatArithmetic named second
    simpa [encodeLine, opcode, ended] using image
  | floatToInteger source destination =>
    simp [UInt8.toNat_inj] at fields
    obtain ⟨rfl, first, second⟩ := fields
    have image : (floatToInteger source destination).Image _ := .floatToInteger base first second
    simpa [encodeLine, opcode, ended] using image
  | timer delay =>
    simp [UInt32.toNat_inj] at fields
    have image : (timer delay).Image _ := .timer (rfl : (mode :: be16 field).length = 3)
    simpa [opcode, fields, ended] using image
  | offsetPointer offset =>
    simp [UInt32.toNat_inj] at fields
    have image : (offsetPointer offset).Image _ := .offsetPointer (rfl : (mode :: be16 field).length = 3)
    simpa [opcode, fields, ended] using image
  | setPointer address =>
    simp [UInt32.toNat_inj] at fields
    have image : (setPointer address).Image _ := .setPointer (rfl : (mode :: be16 field).length = 3)
    simpa [opcode, fields, ended] using image
  | systemCall code =>
    simp [UInt16.toNat_inj] at fields
    have image : (systemCall code).Image _ := .systemCall (rfl : [mode].length = 1) (length_be32 base)
    simpa [opcode, fields, ended] using image
  | resetTimer =>
    rw [ended]
    exact .resetTimer rfl
  | terminator =>
    rw [ended]
    exact .terminator rfl
  | noOperation =>
    rw [ended]
    exact .noOperation rfl
  | timerEnd =>
    rw [ended]
    exact .timerEnd rfl
  | _ => cases line

theorem Laid.image_of_lines {i : Instruction} {bs : Bytes} {n : Nat} (laid : i.Laid bs)
    (lines : i.opcode.fixedLength? = some n) (several : 8 < n) : i.Image bs := by
  obtain ⟨mode, field, base, rest, rfl, size⟩ := laid.line
  rw [encodedLength_of_fixed lines] at size
  have fields := laid.fields
  simp only [layout] at fields
  cases i with
  | write target width value =>
    cases lines
    obtain ⟨stored, spare, rfl, reserved⟩ := exists_word (n := 4) (Nat.add_right_cancel size)
    simp [UInt32.toNat_inj] at fields
    obtain ⟨rfl, rfl, rfl⟩ := fields
    have image : (write target width stored).Image _ := .write field reserved
    simpa [encodeLine, opcode] using image
  | writeSeries target width value iterations step increment =>
    cases lines
    obtain ⟨first, _, rfl, afterValue⟩ := exists_word (n := 12) (Nat.add_right_cancel size)
    obtain ⟨second, _, rfl, afterStep⟩ := exists_word (n := 8) afterValue
    obtain ⟨third, spare, rfl, reserved⟩ := exists_word (n := 4) afterStep
    simp [UInt32.toNat_inj, UInt16.toNat_inj] at fields
    obtain ⟨rfl, rfl, rfl, rfl, rfl, rfl⟩ := fields
    have image : (writeSeries target width first field second third).Image _ := .writeSeries reserved
    simpa [encodeLine, opcode] using image
  | fill target value length =>
    cases lines
    obtain ⟨first, second, _, rfl, ended⟩ := exists_two_words (Nat.add_right_cancel size)
    simp [UInt32.toNat_inj] at fields
    obtain ⟨⟨width, _, rfl⟩, rfl, rfl, rfl⟩ := fields
    have image : (fill target first second).Image _ := .fill width field
    simpa [encodeLine, opcode, ended] using image
  | test comparison target width value upper =>
    cases lines
    obtain ⟨first, second, _, rfl, ended⟩ := exists_two_words (Nat.add_right_cancel size)
    simp [UInt32.toNat_inj] at fields
    obtain ⟨rfl, rfl, rfl, rfl⟩ := fields
    have image : (test comparison target width first second).Image _ := .test field
    simpa [encodeLine, opcode, ended] using image
  | loadPointer target lower upper =>
    cases lines
    obtain ⟨first, second, _, rfl, ended⟩ := exists_two_words (Nat.add_right_cancel size)
    simp [UInt32.toNat_inj] at fields
    obtain ⟨⟨width, _, rfl⟩, rfl, rfl, rfl⟩ := fields
    have image : (loadPointer target first second).Image _ := .loadPointer width field
    simpa [encodeLine, opcode, ended] using image
  | corrupt start stop wanted replacement =>
    cases lines
    obtain ⟨first, _, rfl, afterStop⟩ := exists_word (n := 12) (Nat.add_right_cancel size)
    obtain ⟨second, _, rfl, afterWanted⟩ := exists_word (n := 8) afterStop
    obtain ⟨third, spare, rfl, reserved⟩ := exists_word (n := 4) afterWanted
    simp [UInt32.toNat_inj] at fields
    obtain ⟨rfl, rfl, rfl, rfl⟩ := fields
    have image : (corrupt base first second third).Image _ :=
      .corrupt (rfl : (mode :: be16 field).length = 3) reserved
    simpa [opcode] using image
  | writeString | native | search | call => cases lines
  | _ =>
    cases lines
    cases Nat.lt_irrefl 8 several

theorem Laid.image_of_payload {i : Instruction} {bs : Bytes} (laid : i.Laid bs)
    (varies : i.opcode.fixedLength? = none) : i.Image bs := by
  obtain ⟨mode, field, base, rest, rfl, size⟩ := laid.line
  have fields := laid.fields
  simp only [layout] at fields
  cases i with
  | writeString target bytes =>
    simp [UInt32.toNat_inj] at fields
    obtain ⟨addressing, rfl, counted, pad, rfl⟩ := fields
    have padding : pad.length = roundUpToLine field.toNat - field.toNat := by
      rw [encodedLength, ← counted, List.length_append] at size
      omega
    simpa [encodeLine, opcode] using Image.writeString addressing counted.symm padding
  | native code =>
    simp at fields
    obtain ⟨length, pad, rfl⟩ := fields
    have ended : pad = [] := by
      rw [encodedLength, roundUpToLine, List.length_append] at size
      exact List.eq_nil_of_length_eq_zero (by omega)
    have image : (native code).Image _ :=
      .native (rfl : [mode].length = 1) (length_be32 base) length.symm
    simpa [opcode, ended] using image
  | search template index startHigh stopHigh =>
    -- The last word of the line is two bounds here.
    obtain ⟨start, _, split, left⟩ := exists_half (n := 2) (length_be32 base)
    obtain ⟨stop, _, rfl, ended⟩ := exists_half (n := 0) left
    rw [split, List.eq_nil_of_length_eq_zero ended] at fields ⊢
    simp [UInt16.toNat_inj] at fields
    obtain ⟨⟨counted, pad, rfl⟩, rfl, rfl, rfl⟩ := fields
    have padding : pad.length = roundUpToLine mode.toNat - mode.toNat := by
      rw [encodedLength, ← counted, List.length_append] at size
      omega
    have image : (search template field start stop).Image _ := .search counted.symm padding
    simpa [opcode] using image
  | call address low high arguments count =>
    have limit := (of_decide_eq_true laid.counted).1
    simp [UInt8.toNat_inj, UInt32.toNat_inj, argumentFields_in] at fields
    obtain ⟨rfl, named, rfl, rfl, stand⟩ := fields
    have supplied := length_callArguments base low high arguments limit
    have total := le_roundUpToLine ((lowByte field).toNat * 4)
    have enough : (call base low high arguments (lowByte field)).callArguments.length * 4 ≤ rest.length := by
      rw [encodedLength] at size
      omega
    obtain ⟨pad, rfl⟩ := encodeWords_prefix enough stand
    have padding : pad.length =
        roundUpToLine ((lowByte field).toNat * 4) - (lowByte field).toNat * 4 := by
      rw [encodedLength, List.length_append, length_encodeWords, supplied] at size
      omega
    have image : (call base low high _ (lowByte field)).Image _ := .call limit supplied padding
    rw [← normalized_call, normalized_of_countsArguments laid.counted] at image
    simpa [opcode, be16_eq_bytes, named] using image
  | _ => cases varies

theorem Laid.image {i : Instruction} {bs : Bytes} (laid : i.Laid bs) : i.Image bs := by
  cases lines : i.opcode.fixedLength? with
  | none => exact laid.image_of_payload lines
  | some n =>
    rcases Nat.lt_trichotomy n 8 with shorter | rfl | several
    · have line := i.eight_le_encodedLength
      rw [encodedLength_of_fixed lines] at line
      omega
    · exact laid.image_of_one_line lines
    · exact laid.image_of_lines lines several

theorem laid_iff_image {i : Instruction} {bs : Bytes} : i.Laid bs ↔ i.Image bs := by
  constructor
  · exact Laid.image
  · intro image
    have fields := image.fields []
    rw [List.append_nil] at fields
    exact ⟨image.length_eq, image.countsArguments, fields⟩

end Instruction

/-- An instruction is decoded exactly where a stream begins with as many bytes as it occupies, laid out
as its own. -/
theorem decode_eq_ok_iff_laid (s : Bytes) (i : Instruction) (n : Nat) :
    decode s = .ok (i, n) ↔ n = i.encodedLength ∧ n ≤ s.length ∧ i.Laid (s.take n) := by
  rw [decode_eq_ok_iff_image]
  constructor
  · rintro ⟨bs, tail, rfl, image, rfl⟩
    rw [List.take_left, List.length_append]
    exact ⟨image.length_eq, Nat.le_add_right _ _, Instruction.laid_iff_image.mpr image⟩
  · rintro ⟨rfl, within, laid⟩
    refine ⟨s.take i.encodedLength, s.drop i.encodedLength, ?_, Instruction.laid_iff_image.mp laid, ?_⟩
    · rw [List.take_append_drop]
    · exact laid.length.symm

/-- A float load may name any width, and its third byte is free. -/
example : (Instruction.loadFloat ⟨.relative, 16⟩ 3).Laid [0x12, 0x11, 0xFF, 3, 0, 0, 0, 16] ∧
    ¬ (Instruction.loadFloat ⟨.relative, 16⟩ 3).Laid [0x12, 0x13, 0xFF, 3, 0, 0, 0, 16] := by
  decide

end LivePatch
