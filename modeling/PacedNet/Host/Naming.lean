import PacedNet.Host.Files

/-!
# Names of a host's sockets

A local name is read off the octets that the address is handed over in, so a
path ends at its first zero. Two sockets of one kind cannot have one name: a
path is taken as long as anything lies there, an abstract name and a port as
long as the socket is open. Sockets that all allow reuse may share a port while
none of them listens.
-/

namespace PacedNet

namespace Host

def normal : Endpoint → Endpoint
  | .unix a =>
    match a.raw? with
    | some raw => .unix ((UnixAddress.ofRaw? raw raw.length).getD a)
    | none => .unix a
  | e => e

/-- The open sockets of one family and kind, with their descriptors. -/
def alike (h : Host) (family : Family) (kind : Kind) : List (Descriptor × Station) :=
  (h.stations.zipIdx.map fun (s, d) => (d, s)).filter fun (_, s) =>
    s.isOpen && s.family == family && s.kind == kind

def abstractAt (h : Host) (kind : Kind) (name : List UInt8) : Option Descriptor :=
  ((h.alike .unix kind).find? fun (_, s) => s.name == some (.unix (.abstract name))).map Prod.fst

def isListening (s : Station) : Bool :=
  match s.role with
  | .listening .. => true
  | _ => false

/-- Two internet addresses overlap: one port, and one address or any. -/
def overlaps : Endpoint → Endpoint → Bool
  | .inet4 a, .inet4 b =>
    let any : Ip4 := ⟨0, 0, 0, 0⟩
    a.port == b.port && (a.ip == b.ip || a.ip == any || b.ip == any)
  | .inet6 a, .inet6 b =>
    let any := Ip6.ofGroups []
    a.port == b.port && (a.ip == b.ip || a.ip == any || b.ip == any)
  | _, _ => false

/-- A socket can be bound to the address. -/
def isPresent : Endpoint → Bool
  | .inet6 a => a.ip == Ip6.ofGroups []
  | _ => true

def isTaken (h : Host) (s : Station) (e : Endpoint) : Bool :=
  (h.alike s.family s.kind).any fun (_, other) =>
    (other.name.map (overlaps e)).getD false
      && !(s.reuseAddress && other.reuseAddress && !isListening other)

/-- The address with a port of the host's choice where it asks for any. -/
def withPort (port : UInt16) : Endpoint → Endpoint
  | .inet4 a => if a.port = 0 then .inet4 { a with port } else .inet4 a
  | .inet6 a => if a.port = 0 then .inet6 { a with port } else .inet6 a
  | e => e

def bind (d : Descriptor) (e : Endpoint) : HostCall Unit := do
  let s ← station d
  let h ← get
  let named (e : Endpoint) (h : Host) := h.update d fun s => { s with name := some e }
  match normal e with
  | .unix (.path path) =>
    match h.vacancy path with
    | .error errno => throw errno
    | .ok place => set { named (.unix (.path path)) h with nodes := (place, .station d) :: h.nodes }
  | .unix (.abstract name) =>
    if (h.abstractAt s.kind name).isSome then throw .addressInUse
    else set (named (.unix (.abstract name)) h)
  | e =>
    let chosen := withPort h.nextPort e
    if !isPresent e then throw .addressNotAvailable
    else if h.isTaken s chosen then throw .addressInUse
    else
      let nextPort := if chosen = e then h.nextPort else h.nextPort + 1
      set { named chosen h with nextPort }

/-- The name of a socket that has none of its own. -/
def nameless : Family → Endpoint
  | .unix => .unix .unnamed
  | .ipv4 => .inet4 ⟨⟨0, 0, 0, 0⟩, 0⟩
  | .ipv6 => .inet6 ⟨.ofGroups [], 0, 0⟩

/-- The name a socket goes by. -/
def shownName (s : Station) : Endpoint := s.name.getD (nameless s.family)

def ownName (h : Host) (d : Descriptor) : Option Endpoint := (h.station? d).map shownName

def peerName (h : Host) (d : Descriptor) : Option Endpoint := (h.station? d).bind Station.peerName

def find (h : Host) (kind : Kind) : UnixAddress → Except Errno Descriptor
  | .path path => h.stationAt path
  | .abstract name =>
    match h.abstractAt kind name with
    | some d => .ok d
    | none => .error .connectionRefused

end Host

end PacedNet
