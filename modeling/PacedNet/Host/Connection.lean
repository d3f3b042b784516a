import PacedNet.Host.Naming

/-!
# Connections of a host's sockets

A stream connection has two ends from the moment it is asked for: its far end
waits at the listening socket until it is accepted, and may be sent to before
that. Connecting a datagram socket only notes where its messages go and from
whom it takes any.

Shutting down one end of a stream shuts the other way at its peer. Closing an
end shuts both ways at the peer, and leaves an error there if octets were lost;
what had been sent before stays in the peer's inbox.
-/

namespace PacedNet

namespace Host

def create (family : Family) (kind : Kind) : HostCall Descriptor := add (fresh family kind)

def listen (d : Descriptor) (backlog : Int) : HostCall Unit := do
  match (← station d).kind with
  | .datagram => throw .notSupported
  | .stream => modify fun h => h.update d fun s => { s with role := .listening backlog [] }

def accept (d : Descriptor) : HostCall (Descriptor × Option Endpoint) := do
  match (← station d).role with
  | .listening backlog (first :: rest) =>
    modify fun h => h.update d fun s => { s with role := .listening backlog rest }
    let peer := (← get).stations[first]?.bind Station.peerName
    return (first, peer)
  | _ => throw .wouldBlock

/-- No connection may join those that wait. A backlog below zero sets no limit. -/
def isFull (backlog : Int) (waiting : List Descriptor) : Bool :=
  decide (0 ≤ backlog) && decide (backlog < waiting.length)

def connectStream (d e : Descriptor) (s target : Station) : HostCall Unit := do
  match target.role with
  | .listening backlog waiting =>
    if isFull backlog waiting then throw .wouldBlock
    else
      let far ← add { fresh .unix .stream with
        name := target.name, peerName := some (shownName s), role := .connected d }
      modify fun h => h.update e fun t => { t with role := .listening backlog (waiting ++ [far]) }
      modify fun h => h.update d fun s =>
        { s with role := .connected far, peerName := some (shownName target) }
  | _ => throw .connectionRefused

/-- A datagram socket takes messages from a descriptor: it is connected to nobody else. -/
def welcomes (target : Station) (d : Descriptor) : Bool :=
  match target.role with
  | .connected peer => peer == d
  | _ => true

def connectDatagram (d e : Descriptor) (target : Station) : HostCall Unit := do
  if welcomes target d then
    modify fun h => h.update d fun s =>
      { s with role := .connected e, peerName := some (shownName target) }
  else throw .notPermitted

def connect (d : Descriptor) (e : Endpoint) : HostCall Unit := do
  let s ← station d
  match normal e with
  | .unix address =>
    let other ← ExceptT.mk (pure ((← get).find s.kind address))
    match (← get).station? other with
    | none => throw .connectionRefused
    | some target =>
      if target.kind ≠ s.kind then throw .wrongKind
      else match s.kind with
        | .stream => connectStream d other s target
        | .datagram => connectDatagram d other target
  | _ => throw .networkUnreachable

def shut (how : Direction) (s : Station) : Station :=
  match how with
  | .read => { s with readShut := true }
  | .write => { s with writeShut := true }
  | .both => { s with readShut := true, writeShut := true }

/-- The direction that is shut at the other end of a stream. -/
def facing : Direction → Direction
  | .read => .write
  | .write => .read
  | .both => .both

def shutdown (d : Descriptor) (how : Direction) : HostCall Unit := do
  let s ← station d
  modify fun h => h.update d (shut how)
  match s.kind, s.role with
  | .stream, .connected peer => modify fun h => h.update peer (shut (facing how))
  | _, _ => pure ()

/-- What the end of a stream does to its peer. -/
def hangUp (lost : Bool) (peer : Station) : Station :=
  { shut .both peer with pending := if lost then some .connectionReset else peer.pending }

def close (d : Descriptor) : HostCall Unit := do
  let s ← station d
  modify fun h => h.update d fun s => { s with isOpen := false, inbox := [] }
  match s.kind, s.role with
  | .stream, .connected peer => modify fun h => h.update peer (hangUp (!s.inbox.isEmpty))
  | .stream, .listening _ waiting =>
    modify fun h => waiting.foldl (fun h far =>
      let h := match h.stations[far]?.map Station.role with
        | some (.connected near) => h.update near (hangUp true)
        | _ => h
      h.update far fun s => { s with isOpen := false, inbox := [] }) h
  | _, _ => pure ()

end Host

end PacedNet
