import PacedNet.Address.Family
import PacedNet.Address.Ip
import PacedNet.Address.Unix

/-!
# Addresses as octets

The octets in which an address is handed to the system and handed back. An
internet address has a fixed layout. A local address has room for 108 octets:
a path is followed by zeros to the full length, an abstract name follows one
zero and its length counts.
-/

namespace PacedNet

/-- The octets of a family's number, low one first. -/
def Family.octets (f : Family) : List UInt8 := [UInt8.ofNat f.number, 0]

/-- The octet at a place; beyond the end there are zeros. -/
def octetAt (s : List UInt8) (i : Nat) : UInt8 := s.getD i 0

namespace Inet4

def raw (x : Inet4) : List UInt8 :=
  Family.ipv4.octets ++ octetPair x.port ++ x.ip.octets ++ List.replicate 8 0

def ofRaw? (data : List UInt8) (length : Nat) : Option Inet4 :=
  if length < 16 then none
  else
    let o := octetAt data
    some ⟨⟨o 4, o 5, o 6, o 7⟩, pairValue (o 2) (o 3)⟩

end Inet4

namespace Inet6

/-- The four octets of a zone, low one first. -/
def scopeOctets (scope : UInt32) : List UInt8 :=
  [1, 256, 65536, 16777216].map fun unit => UInt8.ofNat (scope.toNat / unit % 256)

def raw (x : Inet6) : List UInt8 :=
  Family.ipv6.octets ++ octetPair x.port ++ List.replicate 4 0 ++ x.ip.octets ++ scopeOctets x.scope

def ofRaw? (data : List UInt8) (length : Nat) : Option Inet6 :=
  if length < 28 then none
  else
    let o := octetAt data
    let scope :=
      (o 24).toNat + (o 25).toNat * 256 + (o 26).toNat * 65536 + (o 27).toNat * 16777216
    some ⟨.ofOctets ((data.drop 8).take 16), pairValue (o 2) (o 3), UInt32.ofNat scope⟩

end Inet6

namespace UnixAddress

/-- The room for a path, the zero behind it included. -/
def room : Nat := 108

def raw? : UnixAddress → Option (List UInt8)
  | path s =>
    if s.length < room then
      some (Family.unix.octets ++ s ++ List.replicate (room - s.length) 0)
    else none
  | abstract s =>
    if s.length < room then some (Family.unix.octets ++ 0 :: s) else none

/-- Reads what follows the family: nothing, a zero and a name, or a path up to the first zero. -/
def ofBody : List UInt8 → UnixAddress
  | [] => unnamed
  | b :: rest => if b = 0 then abstract rest else path ((b :: rest).takeWhile (· ≠ 0))

def ofRaw? (data : List UInt8) (length : Nat) : Option UnixAddress :=
  if length < 2 then none
  else
    let used := min (length - 2) room
    some (ofBody ((List.range used).map fun i => octetAt data (i + 2)))

end UnixAddress

end PacedNet
