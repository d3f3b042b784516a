import PacedNet.Number.Reading
import PacedNet.Text.Blank

/-!
# Address families

The three families a socket can belong to, their names and their numbers.
-/

namespace PacedNet

inductive Family where
  | unix
  | ipv4
  | ipv6
deriving DecidableEq, Repr

namespace Family

def name : Family → String
  | unix => "unix"
  | ipv4 => "ipv4"
  | ipv6 => "ipv6"

/-- The number that starts a raw address. -/
def number : Family → Nat
  | unix => 1
  | ipv4 => 2
  | ipv6 => 10

/-- The family of a name, in any case and with blanks around it. -/
def ofName? (s : String) : Option Family :=
  let word := String.ofList (asciiLower (Text.trim s.toList))
  if ["unix", "local"].contains word then some unix
  else if ["ipv4", "inet"].contains word then some ipv4
  else if ["ipv6", "inet6"].contains word then some ipv6
  else none

end Family

end PacedNet
