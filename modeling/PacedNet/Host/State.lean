import PacedNet.Socket.Kernel

/-!
# A host in memory

A kernel as a value: its sockets, its files and its next free port. A
descriptor is the place of its socket in the list; a closed socket keeps its
place, so no descriptor ever names two sockets.

What a peer sent lies in the **inbox** of the socket it was sent to, one segment
a call. On a stream the segments run together when they are read, on a datagram
socket each is one message.

This host has no network: an address of version 4 can be bound, but nothing
leads to it, and of version 6 there is only the one that stands for any. Nothing
waits here, neither a call nor an octet: inboxes have room for everything, and a
call that would wait says so.
-/

namespace PacedNet

structure Segment where
  octets : List UInt8
  /-- The file that rides on the first octets. -/
  passed : Option OpenFile
deriving DecidableEq, Repr

inductive Role where
  | idle
  /-- Connections wait here, at most one more than the backlog. -/
  | listening (backlog : Int) (waiting : List Descriptor)
  | connected (peer : Descriptor)
deriving DecidableEq, Repr

structure Station where
  family : Family
  kind : Kind
  name : Option Endpoint
  /-- The name of the other end, which stays when that end is gone. -/
  peerName : Option Endpoint
  role : Role
  inbox : List Segment
  readShut : Bool
  writeShut : Bool
  /-- An error that the next receive reports. -/
  pending : Option Errno
  reuseAddress : Bool
  nonblocking : Bool
  receiveBuffer : Nat
  sendBuffer : Nat
  isOpen : Bool
deriving DecidableEq

inductive FileNode where
  | plain
  | station (d : Descriptor)
deriving DecidableEq, Repr

/-- A place among the files: the names on the way from the root. -/
abbrev Place := List (List UInt8)

structure Host where
  stations : List Station
  nodes : List (Place × FileNode)
  /-- What the files hold that can be passed along. -/
  contents : List (List UInt8)
  nextPort : UInt16
  /-- Nothing that was made here is removed again. -/
  appendOnly : Bool
deriving DecidableEq

namespace Host

/-- The size of a buffer that was not set. -/
def defaultBuffer : Nat := 212992

/-- The first port given to a socket that asks for any. -/
def firstPort : UInt16 := 49157

def empty : Host := ⟨[], [], [], firstPort, false⟩

end Host

abbrev HostCall := ExceptT Errno (StateM Host)

namespace Host

def fresh (family : Family) (kind : Kind) : Station where
  family := family
  kind := kind
  name := none
  peerName := none
  role := .idle
  inbox := []
  readShut := false
  writeShut := false
  pending := none
  reuseAddress := false
  nonblocking := false
  receiveBuffer := defaultBuffer
  sendBuffer := defaultBuffer
  isOpen := true

def station? (h : Host) (d : Descriptor) : Option Station := h.stations[d]?.filter (·.isOpen)

/-- The open socket of a descriptor, or the error that there is none. -/
def station (d : Descriptor) : HostCall Station := do
  match (← get).station? d with
  | some s => return s
  | none => throw .badDescriptor

def update (h : Host) (d : Descriptor) (f : Station → Station) : Host :=
  { h with stations := h.stations.modify d f }

def add (s : Station) : HostCall Descriptor := do
  let h ← get
  set { h with stations := h.stations ++ [s] }
  return h.stations.length

/-- Keeps a text in a file and answers its descriptor. -/
def openFile (h : Host) (content : List UInt8) : OpenFile × Host :=
  (h.contents.length, { h with contents := h.contents ++ [content] })

def duplicate (f : OpenFile) : HostCall OpenFile := do
  match (← get).contents[f]? with
  | none => throw .badDescriptor
  | some content =>
    let (copy, h) := (← get).openFile content
    set h
    return copy

end Host

end PacedNet
