namespace LivePatch

/-- The bits of an IEEE 754 single-precision number. Registers hold the bits, so copying keeps every
pattern, the payload of a NaN included; arithmetic does not. -/
abbrev Binary32 := UInt32

namespace Binary32

def isNegative (x : Binary32) : Bool :=
  0x80000000 ≤ x

/-- The eight exponent bits. -/
def exponent (x : Binary32) : Nat :=
  x.toNat / 0x800000 % 256

/-- The twenty-three fraction bits. -/
def fraction (x : Binary32) : Nat :=
  x.toNat % 0x800000

def isNaN (x : Binary32) : Bool :=
  x.exponent = 255 ∧ x.fraction ≠ 0

def isInfinite (x : Binary32) : Bool :=
  x.exponent = 255 ∧ x.fraction = 0

/-- Integer significand: a finite magnitude is `significand * 2 ^ scale`. -/
def significand (x : Binary32) : Nat :=
  if x.exponent = 0 then x.fraction else 0x800000 + x.fraction

def scale (x : Binary32) : Int :=
  (max x.exponent 1 : Nat) - 150

/-- Sum. A result that is not a number is always the pattern `0x7FC00000`, whatever NaN the operands
were; the same holds of the other operations. -/
def add (x y : Binary32) : Binary32 :=
  (Float32.ofBits x + Float32.ofBits y).toBits

/-- Difference; `0x7FC00000` for every NaN. -/
def sub (x y : Binary32) : Binary32 :=
  (Float32.ofBits x - Float32.ofBits y).toBits

/-- Product; `0x7FC00000` for every NaN. -/
def mul (x y : Binary32) : Binary32 :=
  (Float32.ofBits x * Float32.ofBits y).toBits

/-- Quotient; `0x7FC00000` for every NaN. -/
def div (x y : Binary32) : Binary32 :=
  (Float32.ofBits x / Float32.ofBits y).toBits

/-- Magnitude cut to an integer, toward zero. -/
def integerPart (x : Binary32) : Nat :=
  if 0 ≤ x.scale then x.significand <<< x.scale.toNat
  else x.significand >>> (-x.scale).toNat

/-- Conversion to a signed 32-bit integer, as its two's-complement bits: cut toward zero, held
within the range, and zero for a NaN. -/
def toSigned (x : Binary32) : UInt32 :=
  if x.isNaN then 0
  else if x.isNegative then
    0 - UInt32.ofNat (if x.isInfinite then 0x80000000 else min x.integerPart 0x80000000)
  else
    UInt32.ofNat (if x.isInfinite then 0x7FFFFFFF else min x.integerPart 0x7FFFFFFF)

end Binary32

end LivePatch
