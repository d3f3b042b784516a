import PacedNet.Number.Reading

/-!
# Internet addresses and their text

Addresses of version 4 and 6 with a port, how they are written and how they are
read. What is written has one form: hexadecimal groups without leading zeros,
the first longest run of two or more zero groups left out, and the last two
groups as a version 4 address where the prefix marks one. What is read may leave
out any run of zeros and end in a version 4 address at any place.

The readers take what they need from a list of characters and return the rest.
-/

namespace PacedNet

structure Ip4 where
  a : UInt8
  b : UInt8
  c : UInt8
  d : UInt8
deriving DecidableEq, Repr

/-- An address of version 6: eight groups. -/
structure Ip6 where
  groups : List UInt16
  eight : groups.length = 8
deriving DecidableEq

structure Inet4 where
  ip : Ip4
  port : UInt16
deriving DecidableEq, Repr

/-- An address of version 6, a port and the zone of a link-local address. -/
structure Inet6 where
  ip : Ip6
  port : UInt16
  scope : UInt32
deriving DecidableEq

instance : Repr Inet6 := ⟨fun x p => reprPrec (x.ip.groups, x.port, x.scope) p⟩

/-- An internet address of either version. -/
inductive Internet where
  | v4 (address : Inet4)
  | v6 (address : Inet6)
deriving DecidableEq, Repr

/-- The two octets of a number, high one first. -/
def octetPair (n : UInt16) : List UInt8 :=
  [UInt8.ofNat (n.toNat / 256), UInt8.ofNat (n.toNat % 256)]

/-- The number of two octets, high one first. -/
def pairValue (high low : UInt8) : UInt16 := UInt16.ofNat (high.toNat * 256 + low.toNat)

namespace Ip4

def octets (x : Ip4) : List UInt8 := [x.a, x.b, x.c, x.d]

def loopback : Ip4 := ⟨127, 0, 0, 1⟩

def text (x : Ip4) : String :=
  s!"{x.a.toNat}.{x.b.toNat}.{x.c.toNat}.{x.d.toNat}"

end Ip4

namespace Ip6

/-- The address of eight groups, the missing ones zero. -/
def ofGroups (groups : List UInt16) : Ip6 :=
  ⟨(groups ++ List.replicate 8 0).take 8, by simp⟩

/-- The address of sixteen octets, the missing ones zero. -/
def ofOctets (s : List UInt8) : Ip6 :=
  ⟨(List.range 8).map fun i => pairValue (s.getD (2 * i) 0) (s.getD (2 * i + 1) 0), by simp⟩

def octets (x : Ip6) : List UInt8 := x.groups.flatMap octetPair

def loopback : Ip6 := ofGroups [0, 0, 0, 0, 0, 0, 0, 1]

/-! ## Writing -/

/-- Groups in hexadecimal with colons between them. -/
def groupsText (groups : List UInt16) : String :=
  ":".intercalate (groups.map fun g => String.ofList (Nat.toDigits 16 g.toNat))

/-- How many zero groups stand from a place on. -/
def zerosFrom (groups : List UInt16) (i : Nat) : Nat := ((groups.drop i).takeWhile (· == 0)).length

/-- Where the first longest run of zero groups starts, and its length. -/
def longestZeros (groups : List UInt16) : Nat × Nat :=
  (List.range groups.length).foldl
    (fun best i => if best.2 < zerosFrom groups i then (i, zerosFrom groups i) else best) (0, 0)

def text (x : Ip6) : String :=
  match x.groups with
  | [0, 0, 0, 0, 0, 0xFFFF, high, low] =>
    match octetPair high ++ octetPair low with
    | [a, b, c, d] => "::ffff:" ++ Ip4.text ⟨a, b, c, d⟩
    | _ => ""
  | groups =>
    let (start, length) := longestZeros groups
    if 1 < length then
      groupsText (groups.take start) ++ "::" ++ groupsText (groups.drop (start + length))
    else groupsText groups

end Ip6

def Inet4.text (x : Inet4) : String := s!"{x.ip.text}:{x.port.toNat}"

def Inet6.text (x : Inet6) : String :=
  if x.scope = 0 then s!"[{x.ip.text}]:{x.port.toNat}"
  else s!"[{x.ip.text}%{x.scope.toNat}]:{x.port.toNat}"

/-! ## Reading -/

namespace Ip

/-- What a reader found and the characters it left. -/
abbrev Reader (α : Type) := List Char → Option (α × List Char)

def hexDigit? (c : Char) : Option Nat :=
  if '0' ≤ c ∧ c ≤ '9' then some (c.toNat - '0'.toNat)
  else if 'a' ≤ c ∧ c ≤ 'f' then some (c.toNat - 'a'.toNat + 10)
  else if 'A' ≤ c ∧ c ≤ 'F' then some (c.toNat - 'A'.toNat + 10)
  else none

/-- The longest run of hexadecimal digits, at least one and at most four. -/
def readHex : Reader UInt16 := fun s =>
  let ds := s.takeWhile fun c => (hexDigit? c).isSome
  if 0 < ds.length ∧ ds.length ≤ 4 then
    some (UInt16.ofNat (ds.foldl (fun n c => 16 * n + (hexDigit? c).getD 0) 0), s.drop ds.length)
  else none

/-- The longest run of decimal digits, as a number up to a bound. -/
def readUpTo (bound : Nat) : Reader Nat := fun s =>
  let ds := s.takeWhile isDigit
  if ds.isEmpty ∨ bound < digitsValue ds then none else some (digitsValue ds, s.dropWhile isDigit)

/-- An octet in decimal, without leading zeros. -/
def readOctet : Reader UInt8 := fun s =>
  let ds := s.takeWhile isDigit
  if 3 < ds.length ∨ (1 < ds.length ∧ ds.head? = some '0') then none
  else (readUpTo 255 s).map fun (n, rest) => (UInt8.ofNat n, rest)

def expect (c : Char) : Reader Unit
  | x :: rest => if x = c then some ((), rest) else none
  | [] => none

def readIp4 : Reader Ip4 := fun s => do
  let (a, s) ← readOctet s
  let (_, s) ← expect '.' s
  let (b, s) ← readOctet s
  let (_, s) ← expect '.' s
  let (c, s) ← readOctet s
  let (_, s) ← expect '.' s
  let (d, s) ← readOctet s
  return (⟨a, b, c, d⟩, s)

/-- A reader behind a colon, but for the first of a row. -/
def separated {α : Type} (first : Bool) (read : Reader α) : Reader α := fun s =>
  if first then read s
  else do
    let (_, s) ← expect ':' s
    read s

/-- As many groups as there are up to a limit; a version 4 address stands for two and ends them. -/
def readGroups : (first : Bool) → (limit : Nat) → List Char → List UInt16 × Bool × List Char
  | _, 0, s => ([], false, s)
  | first, n + 1, s =>
    match (if n = 0 then none else separated first readIp4 s) with
    | some (ip, rest) => ([pairValue ip.a ip.b, pairValue ip.c ip.d], true, rest)
    | none =>
      match separated first readHex s with
      | none => ([], false, s)
      | some (group, rest) =>
        let (groups, mixed, rest) := readGroups false n rest
        (group :: groups, mixed, rest)

/-- Eight groups, or fewer around `::`, which stands for one zero group at least. -/
def readIp6 : Reader Ip6 := fun s =>
  let (front, mixed, rest) := readGroups true 8 s
  if front.length = 8 then some (.ofGroups front, rest)
  else if mixed then none
  else do
    let (_, rest) ← expect ':' rest
    let (_, rest) ← expect ':' rest
    let (back, _, rest) := readGroups true (7 - front.length) rest
    return (.ofGroups (front ++ List.replicate (8 - front.length - back.length) 0 ++ back), rest)

def readPort : Reader UInt16 := fun s => do
  let (_, s) ← expect ':' s
  let (n, s) ← readUpTo 65535 s
  return (UInt16.ofNat n, s)

/-- A zone; what is no zone is left for the next reader. -/
def readScope (s : List Char) : UInt32 × List Char :=
  match (do let (_, s) ← expect '%' s; readUpTo 4294967295 s) with
  | some (n, rest) => (UInt32.ofNat n, rest)
  | none => (0, s)

end Ip

def Inet4.read? (s : List Char) : Option Inet4 := do
  let (ip, s) ← Ip.readIp4 s
  let (port, s) ← Ip.readPort s
  if s.isEmpty then some ⟨ip, port⟩ else none

def Inet6.read? (s : List Char) : Option Inet6 := do
  let (_, s) ← Ip.expect '[' s
  let (ip, s) ← Ip.readIp6 s
  let (scope, s) := Ip.readScope s
  let (_, s) ← Ip.expect ']' s
  let (port, s) ← Ip.readPort s
  if s.isEmpty then some ⟨ip, port, scope⟩ else none

/-- The address that a name is by itself, of version 4 or else of version 6. -/
def Internet.ofName? (name : String) (port : UInt16) : Option Internet :=
  match Ip.readIp4 name.toList, Ip.readIp6 name.toList with
  | some (ip, []), _ => some (v4 ⟨ip, port⟩)
  | _, some (ip, []) => some (v6 ⟨ip, port, 0⟩)
  | _, _ => none

end PacedNet
