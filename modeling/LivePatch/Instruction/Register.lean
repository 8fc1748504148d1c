import LivePatch.Instruction.Fault

namespace LivePatch

/-- A register number, of the integer or the float file. -/
abbrev Register := Fin 8

namespace Register

def ofIndex? (n : Nat) : Option Register :=
  if bound : n < 8 then some ⟨n, bound⟩ else none

def ofByte (b : UInt8) : Except Fault Register :=
  match ofIndex? b.toNat with
  | some r => .ok r
  | none => .error (.invalidRegister b)

def toByte (r : Register) : UInt8 :=
  UInt8.ofNat r.val

/-- Name in the integer file. -/
def integerName (r : Register) : String :=
  s!"r{r.val}"

/-- Name in the float file. -/
def floatName (r : Register) : String :=
  s!"f{r.val}"

def all : List Register :=
  List.finRange 8

end Register

end LivePatch
