import LivePatch.Binary32

namespace LivePatch.Binary32

/-- A decimal `digits * 10 ^ power`. -/
structure Decimal where
  digits : Nat
  power : Int

/-- The point of the grid of multiples of `10 ^ power` that stands for a finite nonzero magnitude,
if one of its two neighbours there rounds back to it. The nearer one wins, and a tie goes up.

All quantities are counted in quarters of the last place, over a common denominator. The interval
of reals that round to the magnitude reaches half a place up and down, only a quarter down below a
power of two, and holds its ends when the significand is even. -/
def gridPoint? (x : Binary32) (power : Int) : Option Decimal :=
  let quarters := x.scale - 2
  let unit := Nat.pow 10 (-power).toNat <<< quarters.toNat
  let den := Nat.pow 10 power.toNat <<< (-quarters).toNat
  let value := 4 * x.significand * unit
  let below := if x.fraction = 0 ∧ 1 < x.exponent then unit else 2 * unit
  let closed := x.significand % 2 = 0
  let floor := value / den
  let down := floor * den
  let up := down + den
  let downHits := value < down + below ∨ (closed ∧ value = down + below)
  let upHits := up < value + 2 * unit ∨ (closed ∧ up = value + 2 * unit)
  if upHits ∧ (¬ downHits ∨ up - value ≤ value - down) then some ⟨floor + 1, power⟩
  else if downHits then some ⟨floor, power⟩
  else none

/-- The coarsest grid with a hit gives the fewest digits. Every magnitude is below `10 ^ 39`, and
nine digits always suffice, so the powers from 39 down to -60 hold a hit. -/
def shortest (x : Binary32) : Decimal :=
  ((List.range 100).findSome? fun (n : Nat) => gridPoint? x (39 - n)).getD ⟨0, 0⟩

/-- Positional text, with no point in an integer. -/
def Decimal.text (d : Decimal) : String :=
  let digits := Nat.toDigits 10 d.digits
  if 0 ≤ d.power then String.ofList (digits ++ List.replicate d.power.toNat '0')
  else
    let places := (-d.power).toNat
    if places < digits.length then
      let whole := digits.length - places
      String.ofList (digits.take whole ++ '.' :: digits.drop whole)
    else
      String.ofList ('0' :: '.' :: List.replicate (places - digits.length) '0' ++ digits)

/-- The fewest digits that read back as the same number, without an exponent. -/
def text (x : Binary32) : String :=
  if x.isNaN then "NaN"
  else
    let magnitude :=
      if x.isInfinite then "inf"
      else if x.significand = 0 then "0"
      else x.shortest.text
    if x.isNegative then "-" ++ magnitude else magnitude

end LivePatch.Binary32
