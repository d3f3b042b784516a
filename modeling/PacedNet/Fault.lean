/-!
# Arithmetic faults

What an operation on byte counts or waiting times ends with when its result has
no place in the type that should hold it. Such an operation never wraps.
-/

namespace PacedNet

/-- A result that cannot be represented. -/
inductive ArithmeticFault where
  | addOverflow
  | subtractOverflow
  | multiplyOverflow
  | divideByZero
  | divideOverflow
  /-- A waiting time beyond the range of durations. -/
  | endlessWait
deriving DecidableEq, Repr

def ArithmeticFault.message : ArithmeticFault → String
  | addOverflow => "attempt to add with overflow"
  | subtractOverflow => "attempt to subtract with overflow"
  | multiplyOverflow => "attempt to multiply with overflow"
  | divideByZero => "attempt to divide by zero"
  | divideOverflow => "attempt to divide with overflow"
  | endlessWait => "cannot convert float seconds to Duration: value is either too big or NaN"

end PacedNet
