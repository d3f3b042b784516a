import PacedNet.Config.Node

/-!
# Values of entries

An entry is text; a reader asks for it as a value of a type. A type that can be
asked for says how it is read and what to call it when the text does not read.
-/

namespace PacedNet

structure Ranged (low high : Int) where
  value : Int
  lower : low ≤ value
  upper : value ≤ high
deriving DecidableEq

abbrev Signed32 := Ranged (-2147483648) 2147483647

abbrev Port := Ranged 0 65535

namespace Ranged

def ofInt? {low high : Int} (n : Int) : Option (Ranged low high) :=
  if h : low ≤ n ∧ n ≤ high then some ⟨n, h.1, h.2⟩ else none

/-- Reads an integer; where no value is negative, none may have a minus sign. -/
def read? {low high : Int} (s : List Char) : Option (Ranged low high) := do
  ofInt? (← if low < 0 then readInt? s else (readNat? s).map Int.ofNat)

end Ranged

namespace Config

/-- A type that the text of an entry can be read as. -/
class OfEntry (α : Type) where
  /-- What a text that does not read should have been. -/
  expected : String
  read? : String → Option α

instance : OfEntry String := ⟨"a string", some⟩

/-- One of four words for either truth value, in any case. -/
instance : OfEntry Bool where
  expected := "a boolean"
  read? raw :=
    let word := String.ofList (asciiLower (Text.trim raw.toList))
    if ["1", "true", "yes", "on"].contains word then some true
    else if ["0", "false", "no", "off"].contains word then some false
    else none

instance : OfEntry ByteSize where
  expected := "a byte quantity"
  read? raw := (ByteSize.parse raw).toOption

instance {low high : Int} : OfEntry (Ranged low high) where
  expected := if low < 0 then "an integer" else "an unsigned integer"
  read? raw := Ranged.read? (Text.trim raw.toList)

instance {F : BinaryFormat} : OfEntry (Binary F) where
  expected := "a number"
  read? raw := Binary.read? (Text.trim raw.toList)

namespace Node

def get (n : Node) (key : String) : Except ConfigError String :=
  match n.value? key with
  | some value => .ok value
  | none => .error (.missing n.path key)

def getOr (n : Node) (key default : String) : String := (n.value? key).getD default

def getAs (α : Type) [OfEntry α] (n : Node) (key : String) : Except ConfigError α := do
  let raw ← n.get key
  match OfEntry.read? raw with
  | some value => .ok value
  | none => .error (.badValue n.path key raw (OfEntry.expected α))

/-- An entry as a value; whatever is wrong with it, the default stands in. -/
def getAsOr {α : Type} [OfEntry α] (n : Node) (key : String) (default : α) : α :=
  (n.getAs α key).toOption.getD default

def enter (n : Node) (name : String) : Except ConfigError Node :=
  match n.child? name with
  | some child => .ok child
  | none => .error (.missing n.path s!"[{name}]")

/-- Child sections one in another. -/
def enterAll (n : Node) (names : List String) : Except ConfigError Node := names.foldlM enter n

/-- The names of a dotted path, without blanks around them. -/
def dotted (path : List Char) : List String :=
  (path.splitOn '.').map fun name => String.ofList (Text.trim name)

/-- The section at a dotted path. -/
def enterPath (n : Node) (path : String) : Except ConfigError Node :=
  n.enterAll (dotted path.toList)

/-- The text at a dotted path, whose last name is the key. -/
def lookup (n : Node) (path : String) : Except ConfigError String := do
  let s := path.toList
  if s.contains '.' then
    let key := (s.reverse.takeWhile (· ≠ '.')).reverse
    let scope ← n.enterAll (dotted (s.take (s.length - key.length - 1)))
    scope.get (String.ofList (Text.trim key))
  else n.get path

/-- The quota of a capacity whose fraction is an entry. -/
def quota (n : Node) (now : Instant) (key : String) (capacity : ByteSize) :
    Except ConfigError Quota := do
  let raw ← n.get key
  match Quota.parse now capacity raw with
  | .ok q => .ok q
  | .error e => .error (.badQuota n.path key e)

/-- The same; whatever is wrong with it, the fallback stands in. -/
def quotaOr (n : Node) (now : Instant) (key : String) (capacity : ByteSize) (fallback : Quota) :
    Quota :=
  (n.quota now key capacity).toOption.getD fallback

end Node

end Config

end PacedNet
