import PacedNet.Fault
import PacedNet.Number.Reading
import PacedNet.Text.Blank
import PacedNet.Text.Quoted

/-!
# Byte sizes

A signed quantity of bytes that fits 64 bits, its arithmetic, its text and the
reading of that text. Arithmetic that leaves the range is a fault, never a
wrapped value.

Reading and writing meet in `unit`: a size is written as a quotient by the
largest unit that fits and read as a product with the unit named.
-/

namespace PacedNet

/-- A quantity of bytes, in 64 bits with a sign. -/
structure ByteSize where
  bytes : Int
  lower : -9223372036854775808 ≤ bytes
  upper : bytes ≤ 9223372036854775807
deriving DecidableEq

inductive UnitFamily where
  /-- Powers of 1024. -/
  | binary
  /-- Powers of 1000. -/
  | decimal
deriving DecidableEq, Repr

def UnitFamily.base : UnitFamily → Nat
  | binary => 1024
  | decimal => 1000

/-- The letters that name a unit above the byte, smallest first. -/
def unitLetters : List Char := ['K', 'M', 'G', 'T', 'P', 'E', 'Z', 'Y']

inductive SizeFault where
  | noNumber
  | badNumber
  | unknownLetter
  | missingUnit
  | trailing
deriving DecidableEq, Repr

def SizeFault.message : SizeFault → String
  | noNumber => "expected a number"
  | badNumber => "failed to interpret number"
  | unknownLetter => "invalid unit prefix"
  | missingUnit => "missing `B` unit"
  | trailing => "trailing characters"

/-- A text that is no byte size, as it was given. -/
structure SizeError where
  input : String
  fault : SizeFault
deriving DecidableEq, Repr

def SizeError.message (e : SizeError) : String :=
  s!"failed to parse {Text.quoted e.input} as bytes: {e.fault.message}"

namespace ByteSize

instance : Inhabited ByteSize := ⟨⟨0, by decide, by decide⟩⟩

instance : Repr ByteSize := ⟨fun s p => reprPrec s.bytes p⟩

/-- The size of that many bytes, if it fits. -/
def ofInt? (n : Int) : Option ByteSize :=
  if h : -9223372036854775808 ≤ n ∧ n ≤ 9223372036854775807 then some ⟨n, h.1, h.2⟩ else none

def greatest : ByteSize := ⟨9223372036854775807, by decide, by decide⟩

def least : ByteSize := ⟨-9223372036854775808, by decide, by decide⟩

def clamp (n : Int) : ByteSize :=
  if hu : greatest.bytes < n then greatest
  else if hl : n < least.bytes then least
  else ⟨n, Int.not_lt.mp hl, Int.not_lt.mp hu⟩

def zero : ByteSize := default

/-- The quotient as a size: the integer part, clamped. -/
def ofBinary (x : Binary64) : ByteSize :=
  clamp (x.clampTo least.bytes greatest.bytes truncate)

def toBinary (s : ByteSize) : Binary64 := .ofInt s.bytes

/-! ## Arithmetic -/

def add (a b : ByteSize) : Except ArithmeticFault ByteSize :=
  match ofInt? (a.bytes + b.bytes) with
  | some s => .ok s
  | none => .error .addOverflow

def sub (a b : ByteSize) : Except ArithmeticFault ByteSize :=
  match ofInt? (a.bytes - b.bytes) with
  | some s => .ok s
  | none => .error .subtractOverflow

def mul (a : ByteSize) (n : ByteSize) : Except ArithmeticFault ByteSize :=
  match ofInt? (a.bytes * n.bytes) with
  | some s => .ok s
  | none => .error .multiplyOverflow

/-- Division toward zero. -/
def div (a : ByteSize) (n : ByteSize) : Except ArithmeticFault ByteSize :=
  if n.bytes = 0 then .error .divideByZero
  else match ofInt? (a.bytes.tdiv n.bytes) with
    | some s => .ok s
    | none => .error .divideOverflow

def ratio (a b : ByteSize) : Binary64 := a.toBinary.div b.toBinary

/-! ## Reading -/

def unit (family : UnitFamily) (exponent : Nat) : Binary64 :=
  .ofRat ((family.base : Rat) ^ exponent)

/-- Splits off the digits, with a point among or after them, that a size starts with. -/
def splitNumber (s : List Char) : List Char × List Char :=
  let whole := s.takeWhile isDigit
  match s.dropWhile isDigit with
  | '.' :: r => (whole ++ '.' :: r.takeWhile isDigit, r.dropWhile isDigit)
  | r => (whole, r)

/-- Reads a unit letter, if one stands first. A first letter other than `b` has to be one. -/
def readLetter (s : List Char) : Except SizeFault (Nat × List Char) :=
  match s with
  | c :: r =>
    let letter := c.toUpper
    if letter ≠ 'B' ∧ letter.isAlpha then
      match unitLetters.idxOf? letter with
      | some i => .ok (i + 1, r)
      | none => .error .unknownLetter
    else .ok (0, s)
  | [] => .ok (0, [])

/-- Reads the unit that ends a size: a letter, an `i` for powers of 1024, and `b`, in any case. -/
def readUnit (s : List Char) : Except SizeFault Binary64 := do
  let (exponent, rest) ← readLetter s
  let (family, rest) :=
    match rest with
    | c :: r => if c = 'i' ∨ c = 'I' then (UnitFamily.binary, r) else (.decimal, rest)
    | [] => (.decimal, [])
  match rest with
  | c :: r =>
    if c = 'b' ∨ c = 'B' then
      if r.isEmpty then .ok (unit family exponent) else .error .trailing
    else .error .missingUnit
  | [] => .error .missingUnit

/-- Reads a size without its surrounding blanks. -/
def read (s : List Char) : Except SizeFault ByteSize := do
  let (negative, body) :=
    match s with
    | '-' :: r => (true, Text.trimStart r)
    | _ => (false, s)
  if (body.takeWhile isDigit).isEmpty then .error .noNumber
  else
    let (number, rest) := splitNumber body
    match (Binary.read? number : Option Binary64) with
    | none => .error .badNumber
    | some value =>
      let factor ← readUnit (Text.trimStart rest)
      let sign : Binary64 := if negative then .finite true 1 else .one
      .ok (ofBinary ((sign.mul value).mul factor))

/-- Reads a size: an optional `-`, digits with an optional point, and a unit, blanks around and
between them. -/
def parse (input : String) : Except SizeError ByteSize :=
  (read (Text.trim input.toList)).mapError fun fault => ⟨input, fault⟩

/-! ## Writing -/

/-- The exponent of the largest unit that fits a magnitude. -/
def unitExponent (family : UnitFamily) (magnitude : Rat) : Nat :=
  ((List.range unitLetters.length).takeWhile fun i =>
    (family.base : Rat) ^ (i + 1) ≤ magnitude).length

def unitName (family : UnitFamily) (exponent : Nat) : String :=
  match exponent with
  | 0 => "B"
  | i + 1 =>
    let letter := String.ofList (unitLetters.drop i |>.take 1)
    letter ++ (match family with | .binary => "iB" | .decimal => "B")

/-- Writes a size with a number of places. Sizes below the first unit are plain integers. -/
def format (family : UnitFamily) (places : Nat) (s : ByteSize) : String :=
  let sign := if s.bytes < 0 then "-" else ""
  let magnitude := BinaryFormat.double.nearest s.bytes.natAbs
  match unitExponent family magnitude with
  | 0 => s!"{sign}{s.bytes.natAbs} B"
  | exponent =>
    let quotient := BinaryFormat.double.nearest (magnitude / (family.base : Rat) ^ exponent)
    s!"{sign}{Decimal.fixed places quotient} {unitName family exponent}"

/-- The text of a size: powers of 1024 and two places. -/
def display (s : ByteSize) : String := s.format .binary 2

end ByteSize

end PacedNet
