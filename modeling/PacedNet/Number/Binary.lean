import PacedNet.Number.Rounding

/-!
# Floating-point values

A value of a binary format is a NaN, an infinity or a signed magnitude. The
magnitude is an exact rational, so that an operation reads as what it computes:
the exact result, rounded once by `BinaryFormat.nearest`. Zero keeps its sign.

There is one NaN. Numeric comparison (`numLt`, `numLe`, `numEq`) is not the
equality of the type: a NaN compares with nothing, and the two zeros are equal.
-/

namespace PacedNet

inductive Binary (F : BinaryFormat) where
  | nan
  | infinite (negative : Bool)
  | finite (negative : Bool) (magnitude : Rat)
deriving DecidableEq

abbrev Binary64 := Binary .double

abbrev Binary32 := Binary .single

namespace Binary

variable {F : BinaryFormat}

/-- A sign and an exact magnitude, rounded; what exceeds the greatest finite value is infinite. -/
def ofExact (negative : Bool) (magnitude : Rat) : Binary F :=
  let rounded := F.nearest magnitude
  if F.largest < rounded then .infinite negative else .finite negative rounded

def ofRat (x : Rat) : Binary F := ofExact (decide (x < 0)) x.abs

def ofInt (n : Int) : Binary F := ofRat n

/-- The number a finite value stands for. -/
def signed (negative : Bool) (magnitude : Rat) : Rat :=
  if negative then -magnitude else magnitude

def toRat? : Binary F → Option Rat
  | finite s m => some (signed s m)
  | _ => none

def neg : Binary F → Binary F
  | nan => nan
  | infinite s => infinite (!s)
  | finite s m => finite (!s) m

def add : Binary F → Binary F → Binary F
  | nan, _ => nan
  | _, nan => nan
  | infinite s, infinite t => if s = t then infinite s else nan
  | infinite s, finite _ _ => infinite s
  | finite _ _, infinite t => infinite t
  | finite s a, finite t b =>
    let sum := signed s a + signed t b
    if sum = 0 then finite (s && t) 0 else ofRat sum

def sub (x y : Binary F) : Binary F := x.add y.neg

def mul : Binary F → Binary F → Binary F
  | nan, _ => nan
  | _, nan => nan
  | infinite s, infinite t => infinite (s != t)
  | infinite s, finite t b => if b = 0 then nan else infinite (s != t)
  | finite s a, infinite t => if a = 0 then nan else infinite (s != t)
  | finite s a, finite t b => ofExact (s != t) (a * b)

def div : Binary F → Binary F → Binary F
  | nan, _ => nan
  | _, nan => nan
  | infinite _, infinite _ => nan
  | infinite s, finite t _ => infinite (s != t)
  | finite s _, infinite t => finite (s != t) 0
  | finite s a, finite t b =>
    if b = 0 then (if a = 0 then nan else infinite (s != t))
    else ofExact (s != t) (a / b)

/-- The order of two numbers; none where one of them is no number. -/
def order? : Binary F → Binary F → Option Ordering
  | nan, _ => none
  | _, nan => none
  | infinite s, infinite t => some (if s = t then .eq else if s then .lt else .gt)
  | infinite s, finite _ _ => some (if s then .lt else .gt)
  | finite _ _, infinite t => some (if t then .gt else .lt)
  | finite s a, finite t b =>
    let x := signed s a
    let y := signed t b
    some (if x < y then .lt else if x = y then .eq else .gt)

def numLt (x y : Binary F) : Bool := x.order? y == some .lt

def numLe (x y : Binary F) : Bool := x.order? y == some .lt || x.order? y == some .eq

def numEq (x y : Binary F) : Bool := x.order? y == some .eq

/-- The lesser of two numbers; a NaN gives way to the other operand. -/
def lesser (x y : Binary F) : Binary F :=
  if x = nan then y else if y = nan then x else if y.numLt x then y else x

/-- The greater of two numbers; a NaN gives way to the other operand. -/
def greater (x y : Binary F) : Binary F :=
  if x = nan then y else if y = nan then x else if x.numLt y then y else x

/-- Rounds to an integral value, keeping the sign of a zero. The integral values next to a value of
the format are values of the format too. -/
def toIntegral (round : Rat → Int) : Binary F → Binary F
  | finite s m => finite s (round (signed s m) : Rat).abs
  | x => x

/-- The number rounded to an integer between two bounds: what lies outside is clamped, a NaN is
zero. -/
def clampTo (low high : Int) (round : Rat → Int) : Binary F → Int
  | nan => 0
  | infinite s => if s then low else high
  | finite s m => max low (min high (round (signed s m)))

def isFinite : Binary F → Bool
  | finite _ _ => true
  | _ => false

/-- The number of bit patterns of one sign. -/
def signBit (F : BinaryFormat) : Nat :=
  (F.maxExp - F.minExp + 3).toNat * F.leadingBit

/-- The interchange bits: the magnitudes count up from zero, infinity follows the greatest finite
value, and the sign is the top bit. -/
def toBits : Binary F → Nat
  | nan => signBit F - F.leadingBit / 2
  | infinite s => (if s then signBit F else 0) + (signBit F - F.leadingBit)
  | finite s m =>
    let place := if m = 0 then F.minExp else F.lastPlace m
    let count := (m / (2 : Rat) ^ place).floor.toNat
    (if s then signBit F else 0) + ((place - F.minExp).toNat * F.leadingBit + count)

/-- Reads interchange bits. -/
def ofBits (bits : Nat) : Binary F :=
  let negative := decide (signBit F ≤ bits)
  let body := bits % signBit F
  let field := body / F.leadingBit
  let fraction := body % F.leadingBit
  if field = (F.maxExp - F.minExp + 2).toNat then
    if fraction = 0 then infinite negative else nan
  else if field = 0 then finite negative (fraction * (2 : Rat) ^ F.minExp)
  else finite negative ((F.leadingBit + fraction : Nat) * (2 : Rat) ^ (F.minExp + field - 1))

def zero : Binary F := finite false 0

def one : Binary F := finite false 1

end Binary

end PacedNet
