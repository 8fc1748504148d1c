import LivePatch.Program.Listing
import LivePatch.Proofs.Text.Digits

namespace LivePatch

namespace Text

/-- Printable ASCII: the blank is, a line end is not. -/
def IsPrintable (c : Char) : Prop :=
  0x20 ≤ c.toNat ∧ c.toNat ≤ 0x7E

instance : DecidablePred IsPrintable := fun c =>
  inferInstanceAs (Decidable (0x20 ≤ c.toNat ∧ c.toNat ≤ 0x7E))

def Printable (s : String) : Prop :=
  ∀ c ∈ s.toList, IsPrintable c

instance : DecidablePred Printable := fun s =>
  List.decidableBAll IsPrintable s.toList

@[simp]
theorem printable_append {s t : String} : Printable (s ++ t) ↔ Printable s ∧ Printable t := by
  simp [Printable, or_imp, forall_and]

theorem Printable.append {s t : String} (first : Printable s) (second : Printable t) :
    Printable (s ++ t) :=
  printable_append.mpr ⟨first, second⟩

theorem printable_ofList {cs : List Char} :
    Printable (String.ofList cs) ↔ ∀ c ∈ cs, IsPrintable c := by
  simp [Printable]

theorem printable_intercalate {separator : String} {ss : List String}
    (between : Printable separator) (printable : ∀ s ∈ ss, Printable s) :
    Printable (separator.intercalate ss) := by
  induction ss with
  | nil =>
    rw [String.intercalate_nil]
    decide
  | cons s ss ih =>
    have first := printable s List.mem_cons_self
    by_cases last : ss = []
    · rw [last, String.intercalate_singleton]
      exact first
    · have later := ih fun t member => printable t (List.mem_cons_of_mem s member)
      rw [String.intercalate_cons_of_ne_nil last]
      exact (first.append between).append later

theorem isPrintable_digitChar {d : Nat} (small : d < 16) : IsPrintable d.digitChar := by
  decide +revert

theorem isPrintable_upperDigit {d : Nat} (small : d < 16) : IsPrintable (upperDigit d) := by
  decide +revert

@[simp]
theorem printable_hex (width n : Nat) : Printable (hex width n) := by
  refine Printable.append (by decide) (printable_ofList.mpr fun c member => ?_)
  obtain ⟨d, small, rfl⟩ := exists_digit_of_mem_hexDigits member
  exact isPrintable_digitChar small

@[simp]
theorem printable_upperHex (width n : Nat) : Printable (upperHex width n) := by
  refine printable_ofList.mpr fun c member => ?_
  obtain ⟨d, small, rfl⟩ := exists_digit_of_mem_upperHexDigits member
  exact isPrintable_upperDigit small

@[simp]
theorem printable_hexBytes (bs : Bytes) : Printable (hexBytes bs) := by
  intro c member
  obtain ⟨d, small, rfl⟩ := exists_digit_of_mem_hexBytes member
  exact isPrintable_upperDigit small

theorem isPrintable_of_mem_toDigits {n : Nat} {c : Char} (member : c ∈ Nat.toDigits 10 n) :
    IsPrintable c := by
  obtain ⟨d, small, rfl⟩ := exists_digit_of_mem_toDigits (by decide) member
  exact isPrintable_digitChar (by omega)

@[simp]
theorem printable_repr (n : Nat) : Printable n.repr := by
  intro c member
  rw [Nat.toList_repr] at member
  exact isPrintable_of_mem_toDigits member

@[simp]
theorem printable_repr_int (n : Int) : Printable n.repr := by
  cases n with
  | ofNat m => exact printable_repr m
  | negSucc m => exact Printable.append (by decide) (printable_repr m.succ)

@[simp]
theorem printable_byte (b : UInt8) : Printable (toString b) :=
  printable_repr b.toNat

@[simp]
theorem printable_half (h : UInt16) : Printable (toString h) :=
  printable_repr h.toNat

@[simp]
theorem printable_word (w : UInt32) : Printable (toString w) :=
  printable_repr w.toNat

theorem isPrintable_of_mem_escapeByte {b : UInt8} {c : Char} (member : c ∈ escapeByte b) :
    IsPrintable c := by
  have short {s : String} (literal : Printable s) (inside : c ∈ s.toList) : IsPrintable c :=
    literal c inside
  unfold escapeByte at member
  iterate 6
    split at member
    · exact short (by decide) member
  split at member
  · rename_i ascii
    have blank : 0x20 ≤ b.toNat := UInt8.le_iff_toNat_le.mp ascii.1
    have tilde : b.toNat < 0x7F := UInt8.lt_iff_toNat_lt.mp ascii.2
    have scalar : b.toNat.isValidChar := Or.inl (by omega)
    have code : (Char.ofNat b.toNat).toNat = b.toNat := by
      rw [Char.ofNat, dif_pos scalar]
      rfl
    rw [List.mem_singleton] at member
    rw [member, IsPrintable, code]
    omega
  · rcases List.mem_append.mp member with mark | digit
    · exact short (by decide) mark
    · obtain ⟨d, small, rfl⟩ := exists_digit_of_mem_hexDigits digit
      exact isPrintable_digitChar small

/-- No byte of a string can end its line. -/
@[simp]
theorem printable_escape (bs : Bytes) : Printable (escape bs) := by
  refine printable_ofList.mpr fun c member => ?_
  obtain ⟨_, _, inside⟩ := List.mem_flatMap.mp member
  exact isPrintable_of_mem_escapeByte inside

theorem printable_hexLine (bs : Bytes) : Printable (hexLine bs) := by
  unfold hexLine
  split
  · exact printable_hexBytes bs
  · exact ((printable_hexBytes _).append (by decide)).append (printable_hexBytes _)

theorem Printable.padRight {s : String} (printable : Printable s) (width : Nat) :
    Printable (padRight width s) := by
  refine printable.append (printable_ofList.mpr fun c member => ?_)
  rw [List.eq_of_mem_replicate member]
  decide

end Text

open Text

namespace Binary32

theorem Decimal.printable_text (d : Decimal) : Printable d.text := by
  have zeros {n : Nat} {c : Char} (member : c ∈ List.replicate n '0') : IsPrintable c := by
    rw [List.eq_of_mem_replicate member]
    decide
  simp only [Decimal.text]
  split
  · refine printable_ofList.mpr fun c member => ?_
    rcases List.mem_append.mp member with digit | zero
    · exact isPrintable_of_mem_toDigits digit
    · exact zeros zero
  · split
    · refine printable_ofList.mpr fun c member => ?_
      rcases List.mem_append.mp member with whole | fraction
      · exact isPrintable_of_mem_toDigits (List.mem_of_mem_take whole)
      · rcases List.mem_cons.mp fraction with rfl | digit
        · decide
        · exact isPrintable_of_mem_toDigits (List.mem_of_mem_drop digit)
    · refine printable_ofList.mpr fun c member => ?_
      rcases List.mem_append.mp member with front | digit
      · rcases List.mem_cons.mp front with rfl | point
        · decide
        · rcases List.mem_cons.mp point with rfl | zero
          · decide
          · exact zeros zero
      · exact isPrintable_of_mem_toDigits digit

theorem printable_text (x : Binary32) : Printable x.text := by
  have magnitude : Printable
      (if x.isInfinite then "inf" else if x.significand = 0 then "0" else x.shortest.text) := by
    split
    · decide
    · split
      · decide
      · exact x.shortest.printable_text
  simp only [text]
  split
  · decide
  · split
    · exact Printable.append (by decide) magnitude
    · exact magnitude

end Binary32

@[simp]
theorem Opcode.printable_mnemonic (op : Opcode) : Printable op.mnemonic := by
  cases op with
  | test comparison => cases comparison <;> decide
  | _ => decide

@[simp]
theorem Target.printable_text (t : Target) : Printable t.text := by
  unfold text
  split <;> simp +decide

@[simp]
theorem Width.printable_text (w : Width) : Printable w.text := by
  cases w <;> decide

@[simp]
theorem Arithmetic.printable_text (a : Arithmetic) : Printable a.text := by
  cases a <;> decide

@[simp]
theorem Register.printable_integerName (r : Register) : Printable r.integerName := by
  decide +revert

@[simp]
theorem Register.printable_floatName (r : Register) : Printable r.floatName := by
  decide +revert

@[simp]
theorem printable_hexWord (w : UInt32) : Printable (hexWord w) :=
  printable_hex 0 w.toNat

@[simp]
theorem printable_hexAddress (w : UInt32) : Printable (hexAddress w) :=
  printable_hex 8 w.toNat

@[simp]
theorem Source.printable_integerText (s : Source) : Printable s.integerText := by
  cases s with
  | register r => exact r.printable_integerName
  | literal value => exact printable_hexWord value

@[simp]
theorem Source.printable_floatText (s : Source) : Printable s.floatText := by
  cases s with
  | register r => exact r.printable_floatName
  | literal value => exact Binary32.printable_text value

theorem Instruction.printable_text (i : Instruction) : Printable i.text := by
  -- The fixed pieces of a text are decided; each kind of operand has its lemma above.
  cases i with
  | test comparison => cases comparison <;> simp +decide [text]
  | call address low high arguments count =>
    have listed : Printable (", ".intercalate
        ((call address low high arguments count).callArguments.map hexWord)) := by
      refine printable_intercalate (by decide) fun s member => ?_
      obtain ⟨w, _, rfl⟩ := List.mem_map.mp member
      exact printable_hexWord w
    simp +decide [text, listed]
  | _ => simp +decide [text]

theorem Fault.printable_message (fault : Fault) : Printable fault.message := by
  cases fault with
  | truncated position wanted available =>
    show Printable ("Truncated instruction at offset " ++ hex 0 position ++
      (": wanted " ++ toString wanted ++ " bytes, " ++ toString available ++ " available"))
    simp +decide
  | invalidOpcode | invalidIntegerOperation | invalidFloatOperation =>
    exact Printable.append (by decide) (printable_hex 2 _)
  | invalidWidth nibble | invalidAddressing nibble | invalidRegister nibble
  | tooManyArguments nibble =>
    exact (Printable.append (by decide) (printable_byte nibble)).append (by decide)

theorem DecodeError.printable_message (e : DecodeError) : Printable e.message := by
  cases e with
  | unknownOpcode byte => exact Printable.append (by decide) (printable_upperHex 2 _)
  | malformed fault => exact Printable.append (by decide) fault.printable_message
  | partialLine position remaining =>
    exact ((Printable.append (by decide) (printable_repr remaining)).append (by decide)).append
      (printable_hex 0 position)

end LivePatch
