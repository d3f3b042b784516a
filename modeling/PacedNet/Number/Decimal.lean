import PacedNet.Number.Binary

/-!
# Decimals

Reading a decimal is one rounding of its exact value. Writing selects, among the
decimals that read back to the value, those of the fewest digits, and of these
the nearest. Three layouts are in use: all digits around a point, a mantissa with
an exponent, and a fixed number of places.

The search is the specification turned into a loop: on the grid of one, two, …
digits it tests the two neighbours of the value in exact arithmetic, and the
first grid with a hit wins.
-/

namespace PacedNet

/-- The number `digits * 10 ^ exponent`. -/
structure Decimal where
  digits : Nat
  exponent : Int
deriving DecidableEq

/-- How many decimal digits a number is written with. -/
def decimalLength (n : Nat) : Nat := (Nat.toDigits 10 n).length

namespace Decimal

def toRat (d : Decimal) : Rat := d.digits * (10 : Rat) ^ d.exponent

/-- Moves trailing zeros of the digits into the exponent; the bound is the number of digits. -/
def stripZeros : Nat → Decimal → Decimal
  | 0, d => d
  | n + 1, d =>
    if d.digits ≠ 0 ∧ d.digits % 10 = 0 then stripZeros n ⟨d.digits / 10, d.exponent + 1⟩ else d

/-- All digits, with a point where one is needed and at least `places` digits behind it if any. -/
def positional (places : Nat) (d : Decimal) : String :=
  let ds := Nat.toDigits 10 d.digits
  let pad (fraction : List Char) : String :=
    let filled := fraction ++ List.replicate (places - fraction.length) '0'
    if filled.isEmpty then "" else "." ++ String.ofList filled
  if 0 ≤ d.exponent then
    let zeros := if d.digits = 0 then 0 else d.exponent.toNat
    String.ofList (ds ++ List.replicate zeros '0') ++ pad []
  else
    let behind := (-d.exponent).toNat
    if behind < ds.length then
      String.ofList (ds.take (ds.length - behind)) ++ pad (ds.drop (ds.length - behind))
    else "0" ++ pad (List.replicate (behind - ds.length) '0' ++ ds)

/-- One digit, a point and the others if there are any, and the exponent of the first digit. -/
def scientific (d : Decimal) : String :=
  let ds := Nat.toDigits 10 d.digits
  let lead := d.exponent + (ds.length : Int) - 1
  let fraction := ds.drop 1
  String.ofList (ds.take 1)
    ++ (if fraction.isEmpty then "" else "." ++ String.ofList fraction)
    ++ "e" ++ toString lead

/-- A magnitude with a fixed number of places: the exact value, rounded half to even. -/
def fixed (places : Nat) (magnitude : Rat) : String :=
  let ds := Nat.toDigits 10 (roundHalfEven (magnitude * (10 : Rat) ^ places)).toNat
  let padded := List.replicate (places + 1 - ds.length) '0' ++ ds
  let whole := padded.take (padded.length - places)
  if places = 0 then String.ofList whole
  else String.ofList whole ++ "." ++ String.ofList (padded.drop (padded.length - places))

end Decimal

/-- The least `k` with `x < 10 ^ k`, for a positive rational. -/
def decimalScale (x : Rat) : Int :=
  let guess := floorLog2 x * 30103 / 100000
  if x < (10 : Rat) ^ (guess + 1) then guess + 1 else guess + 2

namespace BinaryFormat

/-- The rationals that round to a positive value of the format: the halfway points to its two
neighbours, which belong to the value itself exactly when its last bit is even. -/
def readsBack (F : BinaryFormat) (magnitude x : Rat) : Bool :=
  let place := F.lastPlace magnitude
  let unit := (2 : Rat) ^ place
  let significand := (magnitude / unit).floor
  let narrow := significand = F.leadingBit ∧ F.minExp < place
  let low := if narrow then magnitude - unit / 4 else magnitude - unit / 2
  let high := magnitude + unit / 2
  if significand % 2 = 0 then low ≤ x && x ≤ high else low < x && x < high

/-- The neighbour of a positive value on the grid of `n` digits that reads back; the nearer of
two, and of two equally near the greater. -/
def hit (F : BinaryFormat) (magnitude : Rat) (scale : Int) (n : Nat) : Option Decimal :=
  let exponent := scale - (n : Int)
  let grid := (10 : Rat) ^ exponent
  let below := (magnitude / grid).floor
  let reads (m : Int) := 0 < m && F.readsBack magnitude (m * grid)
  let nearerBelow := 2 * magnitude < (2 * below + 1) * grid
  match reads below, reads (below + 1) with
  | true, true => some ⟨(if nearerBelow then below else below + 1).toNat, exponent⟩
  | true, false => some ⟨below.toNat, exponent⟩
  | false, true => some ⟨(below + 1).toNat, exponent⟩
  | false, false => none

/-- The decimal of fewest digits that reads back to a positive value. Twenty digits are more than
either format needs; past them the value is rounded to that many. -/
def shortest (F : BinaryFormat) (magnitude : Rat) : Decimal :=
  let scale := decimalScale magnitude
  let found := (List.range 20).findSome? fun n => F.hit magnitude scale (n + 1)
  let exact : Decimal := ⟨(magnitude / (10 : Rat) ^ (scale - 20)).floor.toNat, scale - 20⟩
  (found.getD exact).stripZeros 20

end BinaryFormat

namespace Binary

variable {F : BinaryFormat}

/-- The value nearest to a signed decimal. An exponent far beyond the format is answered without
computing its power. -/
def ofDecimal (negative : Bool) (d : Decimal) : Binary F :=
  if d.digits = 0 then .finite negative 0
  else if 400 < d.exponent then .infinite negative
  else if d.exponent + (decimalLength d.digits : Int) < -400 then .finite negative 0
  else ofExact negative d.toRat

/-- The digits that identify a value, never an exponent. -/
def plainText : Binary F → String
  | nan => "NaN"
  | infinite s => if s then "-inf" else "inf"
  | finite s m =>
    (if s then "-" else "") ++ (if m = 0 then "0" else (F.shortest m).positional 0)

/-- The digits that identify a value, with at least one place; an exponent outside
`[10 ^ -4, 10 ^ 16)`. -/
def exactText : Binary F → String
  | nan => "NaN"
  | infinite s => if s then "-inf" else "inf"
  | finite s m =>
    (if s then "-" else "") ++
      (if m = 0 then "0.0"
       else if m < (10 : Rat) ^ (-4 : Int) ∨ (10 : Rat) ^ (16 : Int) ≤ m then
         (F.shortest m).scientific
       else (F.shortest m).positional 1)

end Binary

end PacedNet
