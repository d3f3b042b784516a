import PacedNet.Number.Decimal

/-!
# Reading numbers

Two readers over lists of characters, both all or nothing: an integer with an
optional sign, and a floating-point number with an optional sign, a point
anywhere among its digits and an optional exponent. Neither skips blanks.
-/

namespace PacedNet

def isDigit (c : Char) : Bool := '0' ≤ c && c ≤ '9'

/-- The number a run of digits stands for. -/
def digitsValue (s : List Char) : Nat := s.foldl (fun n c => 10 * n + (c.toNat - '0'.toNat)) 0

def asciiLower (s : List Char) : List Char := s.map Char.toLower

/-- An integer: one sign at most, then digits only. -/
def readInt? (s : List Char) : Option Int :=
  let magnitude (ds : List Char) : Option Nat :=
    if !ds.isEmpty && ds.all isDigit then some (digitsValue ds) else none
  match s with
  | '+' :: ds => (magnitude ds).map Int.ofNat
  | '-' :: ds => (magnitude ds).map fun n => -(n : Int)
  | ds => (magnitude ds).map Int.ofNat

/-- An integer without a minus sign, so that not even `-0` is one. -/
def readNat? (s : List Char) : Option Nat :=
  match s with
  | '-' :: _ => none
  | _ => (readInt? s).map Int.toNat

/-- Digits with an optional point, at least one digit on either side of it. -/
def readMantissa? (s : List Char) : Option (Decimal × List Char) :=
  let whole := s.takeWhile isDigit
  let rest := s.dropWhile isDigit
  let (fraction, rest) :=
    match rest with
    | '.' :: r => (r.takeWhile isDigit, r.dropWhile isDigit)
    | r => ([], r)
  if whole.isEmpty && fraction.isEmpty then none
  else some (⟨digitsValue (whole ++ fraction), -(fraction.length : Int)⟩, rest)

/-- An unsigned decimal with an optional exponent. -/
def readDecimal? (s : List Char) : Option Decimal := do
  let (mantissa, rest) ← readMantissa? s
  match rest with
  | [] => some mantissa
  | c :: r =>
    if c = 'e' ∨ c = 'E' then
      let exponent ← readInt? r
      some ⟨mantissa.digits, mantissa.exponent + exponent⟩
    else none

/-- A floating-point number: a decimal, or one of the words for what no decimal says. -/
def Binary.read? {F : BinaryFormat} (s : List Char) : Option (Binary F) :=
  let unsigned (negative : Bool) (body : List Char) : Option (Binary F) :=
    match readDecimal? body with
    | some d => some (.ofDecimal negative d)
    | none =>
      let word := asciiLower body
      if word = "nan".toList then some .nan
      else if word = "inf".toList ∨ word = "infinity".toList then some (.infinite negative)
      else none
  match s with
  | '+' :: body => unsigned false body
  | '-' :: body => unsigned true body
  | body => unsigned false body

end PacedNet
