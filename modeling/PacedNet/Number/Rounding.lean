/-!
# Rounding a rational to a binary format

A binary format keeps `precision` significant bits, and its last place never
falls below `2 ^ minExp`. Every floating-point operation of the library is the
exact rational result, rounded once by `nearest`; nothing here is approximate
and nothing depends on the machine.

The exponent of the last place is found from the sizes of numerator and
denominator, which pin the binary logarithm down to two candidates.
-/

namespace PacedNet

structure BinaryFormat where
  precision : Nat
  /-- Exponent of the last place of the least positive values. -/
  minExp : Int
  /-- Exponent of the last place of the greatest finite values. -/
  maxExp : Int
deriving DecidableEq

/-- `⌊log₂ x⌋` of a positive rational. -/
def floorLog2 (x : Rat) : Int :=
  let e : Int := (Nat.log2 x.num.natAbs : Int) - (Nat.log2 x.den : Int)
  if (2 : Rat) ^ e ≤ x then e else e - 1

/-- The nearest integer; a half goes to the even neighbour. -/
def roundHalfEven (x : Rat) : Int :=
  let below := x.floor
  let rest := x - below
  if rest < 1 / 2 then below
  else if 1 / 2 < rest then below + 1
  else if below % 2 = 0 then below else below + 1

/-- The nearest integer; a half goes away from zero. -/
def roundHalfAway (x : Rat) : Int :=
  if x < 0 then -((-x + 1 / 2).floor) else (x + 1 / 2).floor

/-- The integer part, toward zero. -/
def truncate (x : Rat) : Int :=
  if x < 0 then -((-x).floor) else x.floor

namespace BinaryFormat

def double : BinaryFormat := ⟨53, -1074, 971⟩

def single : BinaryFormat := ⟨24, -149, 104⟩

/-- Exponent of the last place kept of a positive value. -/
def lastPlace (F : BinaryFormat) (x : Rat) : Int :=
  max (floorLog2 x - ((F.precision : Int) - 1)) F.minExp

/-- The value of the format's grid nearest to a non-negative rational, ties to even. -/
def nearest (F : BinaryFormat) (x : Rat) : Rat :=
  if x = 0 then 0
  else
    let unit := (2 : Rat) ^ F.lastPlace x
    roundHalfEven (x / unit) * unit

/-- The least significand of a value that is not too small to fill the precision. -/
def leadingBit (F : BinaryFormat) : Nat := 1 <<< (F.precision - 1)

def largest (F : BinaryFormat) : Rat :=
  ((2 * F.leadingBit - 1 : Nat) : Rat) * (2 : Rat) ^ F.maxExp

end BinaryFormat

end PacedNet
