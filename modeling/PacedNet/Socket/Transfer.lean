import PacedNet.Socket.Machine

/-!
# Transfers

A transfer puts the octets of a payload on the wire. On a stream it goes chunk
by chunk: each chunk is what the quota grants of the rest, and the kernel may
take any part of it. A datagram leaves in one call, whatever its length. Before
every call the transfer looks whether its socket was closed in the meantime.

A descriptor rides on the first call. A stream needs an octet for it to ride on,
so an empty payload that passes one is sent as a single zero octet.
-/

namespace PacedNet

/-- What a transfer needs of its socket, and keeps when the socket is gone. -/
structure Link where
  descriptor : Descriptor
  quota : Option QuotaId
  /-- The number of the socket. -/
  owner : Nat
  kind : Kind
deriving DecidableEq, Repr

/-- What is sent and how. -/
structure Parcel where
  wire : List UInt8
  payloadBytes : Nat
  flags : Nat
  pass : Option OpenFile
deriving DecidableEq, Repr

namespace Transfer

variable {K : Type} [Kernel K]

/-- Stops a transfer whose socket was closed. -/
def checkpoint (link : Link) : Act K Unit := do
  if (← get).cancelled.contains link.owner then Act.fail .write .cancelled

def send (link : Link) (octets : List UInt8) (flags : Nat) (pass : Option OpenFile) : Act K Nat :=
  Act.call (Kernel.send link.descriptor octets (flags ||| noSignal) pass) fun e =>
    ⟨.write, .system e⟩

/-- One round of a stream: what the quota grants of the rest is offered to the kernel. -/
def round (link : Link) (flags : Nat) (pass : Option OpenFile) (rest : List UInt8) : Act K Nat := do
  checkpoint link
  let grant ← Act.pace .write link.quota rest.length Quota.throttle
  send link (rest.take grant) flags pass

/-- Sends the rest of a stream's wire. A call that takes nothing of a chunk ends it; no kernel
answers so to a chunk that is not empty. -/
def stream (link : Link) (flags : Nat) :
    Option OpenFile → SendReport → List UInt8 → Act K SendReport
  | _, report, [] => return report
  | pass, report, b :: tail => do
    let sent ← round link flags pass (b :: tail)
    let report := { report with wireBytes := report.wireBytes + sent, chunks := report.chunks + 1 }
    if sent = 0 then return report
    else stream link flags none report ((b :: tail).drop sent)
termination_by _ _ rest => rest.length
decreasing_by
  simp only [List.length_drop, List.length_cons]
  omega

def datagram (link : Link) (parcel : Parcel) : Act K SendReport := do
  checkpoint link
  let _ ← Act.pace .write link.quota parcel.wire.length Quota.throttleExact
  let sent ← send link parcel.wire parcel.flags parcel.pass
  return ⟨parcel.payloadBytes, sent, 1⟩

def awaitReply (link : Link) : Act K Unit := do
  let reply ← Act.call (Kernel.receive link.descriptor 1) fun e => ⟨.read, .system e⟩
  match reply.octets with
  | [] => Act.fail .read .peerClosed
  | got :: _ => if got = acknowledgement then return () else Act.fail .read (.wrongReply got)

/-- The octets of a stream's transfer: a lone descriptor rides on a zero. -/
def streamWire (parcel : Parcel) : List UInt8 :=
  if parcel.wire.isEmpty && parcel.pass.isSome then [0] else parcel.wire

/-- Runs a transfer, and waits for the peer's acknowledgement if asked to. -/
def run (link : Link) (parcel : Parcel) (acknowledge : Bool) : Act K SendReport := do
  let report ← match link.kind with
    | .datagram => datagram link parcel
    | .stream =>
      stream link parcel.flags parcel.pass ⟨parcel.payloadBytes, 0, 0⟩ (streamWire parcel)
  if acknowledge then awaitReply link
  return report

end Transfer

end PacedNet
