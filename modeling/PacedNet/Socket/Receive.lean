import PacedNet.Socket.Lifecycle

/-!
# Receives

On a stream a receive takes one chunk, which it waits for, and then all that is
already there. A chunk is the socket's read chunk or the part of it that the
quota grants. On a datagram socket a receive takes exactly one message, sized by
looking at it first.

With acknowledgement on, a receive answers with one octet after it has read.
-/

namespace PacedNet

namespace Socket

variable {K : Type} [Kernel K]

def receiveCall (d : Descriptor) (room : Nat) : Act K Incoming :=
  Act.call (Kernel.receive d room) fun e => ⟨.read, .system e⟩

def readChunkOf (s : Socket) (link : Link) : Act K Incoming := do
  let room ← Act.pace .read link.quota s.readChunk Quota.throttle
  receiveCall link.descriptor room

/-- At least one octet could be received at once. -/
def isReady (link : Link) : Act K Bool := do
  let m ← get
  let (ready, kernel) := Kernel.ready link.descriptor m.kernel
  set { m with kernel }
  return ready

/-- Reads on while something is there; what was read so far is handed on last octet first. Every
chunk that is not empty takes of what is waiting, which bounds their number. -/
def drain (s : Socket) (link : Link) : Nat → List UInt8 → Act K (List UInt8)
  | 0, read => return read.reverse
  | bound + 1, read => do
    if ← isReady link then
      let chunk ← s.readChunkOf link
      if chunk.octets.isEmpty then return read.reverse
      else drain s link bound (chunk.octets.reverse ++ read)
    else return read.reverse

/-- All that is there, after the first chunk. -/
def drainAll (s : Socket) (link : Link) (data : List UInt8) : Act K (List UInt8) := do
  drain s link ((← Act.ask (Kernel.waiting link.descriptor)) + 1) data.reverse

/-- Reads chunks up to an empty one, bounded like draining. -/
def readUntilEnd (s : Socket) (link : Link) : Nat → List UInt8 → Act K (List UInt8)
  | 0, read => return read.reverse
  | bound + 1, read => do
    let chunk ← s.readChunkOf link
    if chunk.octets.isEmpty then return read.reverse
    else readUntilEnd s link bound (chunk.octets.reverse ++ read)

/-- One whole message, paced as one grant. -/
def readMessage (link : Link) : Act K Incoming := do
  let length ← Act.call (Kernel.nextLength link.descriptor) fun e => ⟨.read, .system e⟩
  let _ ← Act.pace .read link.quota length Quota.throttleExact
  let message ← receiveCall link.descriptor length
  if length < message.length then Act.fail .read (.truncated message.length)
  else return message

/-- Answers that data arrived, where acknowledgement is on. -/
def reply (s : Socket) (link : Link) : Act K Unit := do
  if s.acknowledge then
    let _ ← Act.call (Kernel.send link.descriptor [acknowledgement] noSignal none)
      fun e => ⟨.write, .system e⟩

/-- Receives what the peer has sent so far, or one message. -/
def receiveData (s : Socket) : Act K (List UInt8) := do
  let link ← Act.ofExcept s.reader
  let data ← match s.kind with
    | .datagram => do pure (← readMessage link).octets
    | .stream => do
      let first ← s.readChunkOf link
      if first.octets.isEmpty then Act.fail .read .peerClosed
      else s.drainAll link first.octets
  s.reply link
  return data

def receiveRecords (s : Socket) : Act K (List (List UInt8)) := do
  return splitRecords (← s.receiveData)

/-- Receives data and the descriptor that came with its first chunk. -/
def receivePassed (s : Socket) : Act K (List UInt8 × OpenFile) := do
  let link ← Act.ofExcept s.reader
  let (data, file) ← match s.kind with
    | .datagram => do
      let message ← readMessage link
      match message.passed with
      | some file => pure (message.octets, file)
      | none => Act.fail .read .missingDescriptor
    | .stream => do
      let first ← s.readChunkOf link
      match first.passed with
      | some file => do pure (← s.drainAll link first.octets, file)
      | none =>
        Act.fail .read (if first.octets.isEmpty then .peerClosed else .missingDescriptor)
  s.reply link
  return (data, file)

/-- Receives up to the end of a stream, or one message. -/
def receiveToEnd (s : Socket) : Act K (List UInt8) := do
  let link ← Act.ofExcept s.reader
  match s.kind with
  | .datagram => return (← readMessage link).octets
  | .stream => s.readUntilEnd link ((← Act.ask (Kernel.waiting link.descriptor)) + 1) []

end Socket

end PacedNet
