import PacedNet.Host.Traffic

/-!
# The host as a kernel

The calls that are left, which concern options, and all calls together.
-/

namespace PacedNet

namespace Host

/-- The size that a buffer gets: twice what was asked for, for the host's own needs, in limits. -/
def grantedBuffer (least asked : Nat) : Nat := max (2 * min asked defaultBuffer) least

def set (d : Descriptor) (setting : Setting) : HostCall Unit := do
  let _ ← station d
  modify fun h => h.update d fun s =>
    match setting with
    | .reuseAddress on => { s with reuseAddress := on }
    | .receiveBuffer size => { s with receiveBuffer := grantedBuffer 2304 size }
    | .sendBuffer size => { s with sendBuffer := grantedBuffer 4608 size }
    | .nonblocking on => { s with nonblocking := on }
    | .linger _ => s

def takeError (d : Descriptor) : HostCall (Option Errno) := do
  let s ← station d
  modify fun h => h.update d fun s => { s with pending := none }
  return s.pending

/-- The host knows no name but its own. -/
def lookUp (name : String) (port : UInt16) : Except String (List Internet) :=
  if name = "localhost" then .ok [.v4 ⟨.loopback, port⟩]
  else .error "failed to lookup address information: Name or service not known"

def property {α : Type} (f : Station → α) (d : Descriptor) (h : Host) : Except Errno α :=
  match h.station? d with
  | some s => .ok (f s)
  | none => .error .badDescriptor

end Host

def HostCall.answer {α : Type} (call : HostCall α) (h : Host) : Except Errno α × Host :=
  call.run.run h

instance : Kernel Host where
  lookUp name port h := (Host.lookUp name port, h)
  create family kind := (Host.create family kind).answer
  bind d e := (Host.bind d e).answer
  listen d backlog := (Host.listen d backlog).answer
  accept d := (Host.accept d).answer
  connect d e := (Host.connect d e).answer
  awaitWritable _ h := (.ok (), h)
  ownName d h := h.ownName d
  peerName d h := h.peerName d
  set d setting := (Host.set d setting).answer
  receiveBuffer := Host.property Station.receiveBuffer
  sendBuffer := Host.property Station.sendBuffer
  takeError d := (Host.takeError d).answer
  send d octets flags passed := (Host.send d octets flags passed).answer
  receive d room := (Host.receive d room).answer
  nextLength d := (Host.nextLength d).answer
  ready := Host.ready
  waiting d h := h.waiting d
  shutdown d how := (Host.shutdown d how).answer
  close d := (Host.close d).answer
  unlink path h := h.unlink path
  duplicate file := (Host.duplicate file).answer
  -- numbers of files are not used again, and whoever was handed a file goes on with its number
  closeFile _ h := h

end PacedNet
