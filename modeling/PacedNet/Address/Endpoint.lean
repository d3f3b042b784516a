import PacedNet.Address.Raw
import PacedNet.Socket.Error

/-!
# Endpoints

Where a socket binds or connects: a local address, an internet address, or a
host name with a port that is looked up when it is used: of the addresses found
the first of the socket's family counts. A text is tried as each of these in
turn, and the first form whose mark it bears decides.
-/

namespace PacedNet

inductive Endpoint where
  | unix (address : UnixAddress)
  | inet4 (address : Inet4)
  | inet6 (address : Inet6)
  /-- A host name that has not been looked up. -/
  | host (name : String) (port : UInt16)
deriving DecidableEq, Repr

namespace Endpoint

def text : Endpoint → String
  | unix a => a.text
  | inet4 a => a.text
  | inet6 a => a.text
  | host name port => s!"{name}:{port.toNat}"

/-- None for a host name, which may turn out to be of either version. -/
def family? : Endpoint → Option Family
  | unix _ => some .unix
  | inet4 _ => some .ipv4
  | inet6 _ => some .ipv6
  | host .. => none

def port? : Endpoint → Option UInt16
  | unix _ => none
  | inet4 a => some a.port
  | inet6 a => some a.port
  | host _ port => some port

/-- The octets handed to the system; none for a host name or a local address that does not fit. -/
def raw? : Endpoint → Option (List UInt8)
  | unix a => a.raw?
  | inet4 a => some a.raw
  | inet6 a => some a.raw
  | host .. => none

def addressError (text : String) (cause : Cause) : SocketError := ⟨.address text, cause⟩

def checkedUnix (text : String) (a : UnixAddress) : Except SocketError Endpoint :=
  if a.raw?.isSome then .ok (unix a) else .error (addressError text .addressTooLong)

def readHost? (s : List Char) : Option Endpoint := do
  let port := (s.reverse.takeWhile (· ≠ ':')).reverse
  let name := s.take (s.length - port.length - 1)
  if !s.contains ':' || name.isEmpty || name.contains ':' then none
  else
    let n ← readNat? port
    if n < 65536 then some (host (String.ofList name) (UInt16.ofNat n)) else none

def parse (input : String) : Except SocketError Endpoint :=
  let s := Text.trim input.toList
  let text := String.ofList s
  match "unix:".toList.isPrefixOf? s with
  | some ('@' :: name) => checkedUnix text (.abstract (Text.encode (String.ofList name)))
  | some rest => checkedUnix text (.path (Text.encode (String.ofList rest)))
  | none =>
    if s.head? = some '/' then checkedUnix text (.path (Text.encode text))
    else match Inet4.read? s, Inet6.read? s with
      | some a, _ => .ok (inet4 a)
      | none, some a => .ok (inet6 a)
      | none, none =>
        match readHost? s with
        | some e => .ok e
        | none => .error (addressError text (.unresolved "expected host:port"))

def ofInternet : Internet → Endpoint
  | .v4 a => inet4 a
  | .v6 a => inet6 a

/-- The first of the addresses that an endpoint was found to have which is of the family. -/
def pick (e : Endpoint) (family : Family) (found : Except String (List Internet)) :
    Except SocketError Endpoint :=
  match found with
  | .error reason => .error (addressError e.text (.unresolved reason))
  | .ok found =>
    match (found.map ofInternet).find? (·.family? == some family) with
    | some a => .ok a
    | none => .error (addressError e.text (.unresolved s!"no {family.name} address"))

end Endpoint

end PacedNet
