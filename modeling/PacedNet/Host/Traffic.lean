import PacedNet.Host.Connection

/-!
# What travels between a host's sockets

A send puts a segment into the peer's inbox, whole. A receive on a stream takes
octets across segments, but stops behind a segment that carried a file, so that
no two files come with one receive. A receive on a datagram socket takes one
message and drops what finds no room.
-/

namespace PacedNet

namespace Host

def deliver (d : Descriptor) (segment : Segment) (h : Host) : Host :=
  h.update d fun s => { s with inbox := s.inbox ++ [segment] }

/-- Forgets a peer that is gone, with all it had sent. -/
def forget (d : Descriptor) (h : Host) : Host :=
  h.update d fun s => { s with role := .idle, inbox := [] }

def send (d : Descriptor) (octets : List UInt8) (flags : Nat) (passed : Option OpenFile) :
    HostCall Nat := do
  let s ← station d
  if flags &&& outOfBand ≠ 0 ∧ s.kind = .datagram then throw .notSupported
  match s.role with
  | .connected peer =>
    if s.writeShut then throw .brokenPipe
    match s.kind, (← get).station? peer with
    | .stream, none => throw .brokenPipe
    | .datagram, none =>
      modify (forget d)
      throw .connectionRefused
    | kind, some target =>
      if kind = .datagram ∧ !welcomes target d then throw .notPermitted
      else if target.readShut then throw .brokenPipe
      else
        modify (deliver peer ⟨octets, passed⟩)
        return octets.length
  | _ => throw .notConnected

/-- Takes octets of a stream, and the file that came with them. -/
def takeOctets : Nat → List Segment → Incoming × List Segment
  | 0, queue => (⟨[], 0, none⟩, queue)
  | _, [] => (⟨[], 0, none⟩, [])
  | room + 1, segment :: rest =>
    match segment.octets.drop (room + 1), segment.passed with
    | b :: left, file =>
      (⟨segment.octets.take (room + 1), room + 1, file⟩, ⟨b :: left, none⟩ :: rest)
    | [], some file => (⟨segment.octets, segment.octets.length, some file⟩, rest)
    | [], none =>
      let (more, left) := takeOctets (room + 1 - segment.octets.length) rest
      (⟨segment.octets ++ more.octets, segment.octets.length + more.length, more.passed⟩, left)

def takeMessage (room : Nat) (segment : Segment) : Incoming :=
  ⟨segment.octets.take room, segment.octets.length, segment.passed⟩

/-- Reports a pending error and forgets it. -/
def report (d : Descriptor) : HostCall Unit := do
  match (← station d).pending with
  | some errno =>
    modify fun h => h.update d fun s => { s with pending := none }
    throw errno
  | none => pure ()

/-- What a receive finds in an empty inbox. A stream that is shut has ended; a datagram socket has
no end, but a receive that waits on one that is shut waits no longer. -/
def nothing (d : Descriptor) : HostCall Incoming := do
  report d
  let s ← station d
  if s.readShut && (s.kind == .stream || !s.nonblocking) then return ⟨[], 0, none⟩
  else throw .wouldBlock

def receive (d : Descriptor) (room : Nat) : HostCall Incoming := do
  let s ← station d
  match s.kind, s.inbox with
  | .stream, [] => nothing d
  | .stream, queue =>
    let (incoming, left) := takeOctets room queue
    modify fun h => h.update d fun s => { s with inbox := left }
    return incoming
  | .datagram, queue =>
    report d
    match queue with
    | [] => nothing d
    | message :: rest =>
      modify fun h => h.update d fun s => { s with inbox := rest }
      return takeMessage room message

/-- The length of the message at the head of an inbox. -/
def nextLength (d : Descriptor) : HostCall Nat := do
  report d
  match (← station d).inbox with
  | message :: _ => return message.octets.length
  | [] => return (← nothing d).length

def waiting (h : Host) (d : Descriptor) : Nat :=
  ((h.station? d).map fun s => (s.inbox.flatMap Segment.octets).length).getD 0

/-- At least one octet lies in the inbox; asking in vain uses up a pending error. -/
def ready (d : Descriptor) (h : Host) : Bool × Host :=
  if ((h.station? d).map fun s => s.inbox.any (!·.octets.isEmpty)).getD false then (true, h)
  else (false, h.update d fun s => { s with pending := none })

end Host

end PacedNet
