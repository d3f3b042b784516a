import PacedNet.Socket.Transfer

/-!
# The life of a socket

A socket is created, bound, made to listen or connected, shut down and closed.
Every operation first looks at the state, then at what it was given, then asks
the kernel. An operation that changes its socket does so field by field, as it
goes along (`Method`).

* A path that a socket was **bound** to is its own: closing removes the file, unless the kernel
  refuses that.
* An **accepted** socket shares the listening socket's quota and settings.
* **Closing** resolves every pending send as cancelled and wakes transfers that
  still hold the descriptor.
-/

namespace PacedNet

structure Socket where
  /-- None once the socket is closed. -/
  descriptor : Option Descriptor
  family : Family
  kind : Kind
  state : State
  ownEndpoint : Option Endpoint
  peerEndpoint : Option Endpoint
  /-- The file to remove on closing. -/
  file : Option (List UInt8)
  quota : Option QuotaId
  acknowledge : Bool
  readChunk : Nat
  /-- The number that tells its transfers from those of other sockets. -/
  number : Nat
  /-- The slots of asynchronous sends, resolved ones among them. -/
  pending : List SlotId
deriving DecidableEq, Repr

/-- The endpoint itself, a host name looked up. A name that is an address is its own. -/
def Endpoint.resolve {K : Type} [Kernel K] (e : Endpoint) (family : Family) : Act K Endpoint :=
  match e with
  | host name port =>
    if family = .unix then Act.fail (.address e.text) .familyMismatch
    else do
      let found ← match Internet.ofName? name port with
        | some a => pure (.ok [a])
        | none => Act.attempt (Kernel.lookUp name port)
      Act.ofExcept (e.pick family found)
  | other => return other

namespace Socket

variable {K : Type} [Kernel K]

/-- A socket around a new descriptor. -/
def adopt (d : Descriptor) (family : Family) (kind : Kind) (state : State) : Act K Socket := do
  let m ← get
  set { m.hold d with sockets := m.sockets + 1 }
  return {
    descriptor := some d, family, kind, state, ownEndpoint := none, peerEndpoint := none
    file := none, quota := none, acknowledge := false, readChunk := defaultReadChunk
    number := m.sockets, pending := [] }

def create (family : Family) (kind : Kind) : Act K Socket := do
  let d ← Act.call (Kernel.create family kind) fun e => ⟨.create, .system e⟩
  adopt d family kind .created

/-- The descriptor, if the state allows the operation. -/
def expect (s : Socket) (stage : Stage) (allowed : State → Bool) : Act K Descriptor :=
  match s.descriptor with
  | some d => if allowed s.state then return d else throw (.socket (.invalidState stage s.state))
  | none => throw (.socket (.invalidState stage s.state))

/-- The endpoint as the kernel is given it: looked up, of the socket's family and not too long. -/
def target (s : Socket) (e : Endpoint) : Act K Endpoint := do
  let e ← e.resolve s.family
  if e.family? ≠ some s.family then Act.fail (.address e.text) .familyMismatch
  else if e.raw?.isNone then Act.fail (.address e.text) .addressTooLong
  else return e

def accept (s : Socket) : Act K Socket := do
  let d ← s.expect .accept (· == .listening)
  let (connection, peer) ← Act.call (Kernel.accept d) fun errno => ⟨.accept, .system errno⟩
  let accepted ← adopt connection s.family s.kind .connected
  let own ← Act.ask (Kernel.ownName connection)
  return { accepted with
    ownEndpoint := own, peerEndpoint := peer, quota := s.quota,
    acknowledge := s.acknowledge, readChunk := s.readChunk }

end Socket

/-! ## Operations that change their socket -/

/-- An operation on a socket that is changed as it goes along. What was changed before a failure
stays changed. -/
abbrev Method (K : Type) := ExceptT Failure (StateM (Socket × Machine K))

namespace Method

variable {K : Type}

/-- Does something to what sockets share. -/
def act {α : Type} (operation : Act K α) : Method K α := fun (s, m) =>
  let (answer, m) := operation m
  (answer, s, m)

def assign (f : Socket → Socket) : Method K Unit := modify fun (s, m) => (f s, m)

/-- A method of sockets in certain states, told its socket and the descriptor. -/
def enter (stage : Stage) (allowed : State → Bool) (next : Socket → Descriptor → Method K Unit) :
    Method K Unit := do
  let (s, _) ← get
  next s (← act (s.expect stage allowed))

/-- The socket that a method makes of another. -/
def on (method : Method K Unit) (s : Socket) : Act K Socket := fun m =>
  let (answer, s, m) := method (s, m)
  (answer.map fun _ => s, m)

variable [Kernel K]

/-- The file of the path is the socket's from here on. -/
def bindTo (e : Endpoint) : Method K Unit := enter (.bind "") (· == .created) fun s d => do
  let e ← act (s.target e)
  act (Act.call (Kernel.bind d e) fun errno => ⟨.bind e.text, .system errno⟩)
  match e with
  | .unix address => assign fun s => { s with file := address.filePath? }
  | _ => pure ()
  let own ← act (Act.ask (Kernel.ownName d))
  assign fun s => { s with ownEndpoint := own.or (some e) }
  assign fun s => { s with state := .bound }

def listenFor (backlog : Int) : Method K Unit := enter (.listen 0) (· == .bound) fun _ d => do
  act (Act.call (Kernel.listen d backlog) fun errno => ⟨.listen backlog, .system errno⟩)
  assign fun s => { s with state := .listening }

/-- Connects, and waits for a connect that goes on by itself. -/
def join (d : Descriptor) (e : Endpoint) : Act K Unit := do
  let failed (cause : Cause) : SocketError := ⟨.connect e.text, cause⟩
  match ← Act.attempt (Kernel.connect d e) with
  | .ok () => return ()
  | .error errno =>
    if errno = .interrupted then
      Act.call (Kernel.awaitWritable d) fun errno => failed (.system errno)
      match ← Act.call (Kernel.takeError d) fun errno => failed (.option "SO_ERROR" errno) with
      | none => return ()
      | some errno => throw (.socket (failed (.system errno)))
    else throw (.socket (failed (.system errno)))

def connectTo (e : Endpoint) : Method K Unit :=
  enter (.connect "") (fun state => state == .created || state == .bound) fun s d => do
    let e ← act (s.target e)
    act (join d e)
    let peer ← act (Act.ask (Kernel.peerName d))
    assign fun s => { s with peerEndpoint := peer.or (some e) }
    let own ← act (Act.ask (Kernel.ownName d))
    assign fun s => { s with ownEndpoint := own }
    assign fun s => { s with state := .connected }

def shut (how : Direction) : Method K Unit := enter .shutdown (· == .connected) fun _ d => do
  act (Act.call (Kernel.shutdown d how) fun errno => ⟨.shutdown, .system errno⟩)
  assign fun s => { s with state := .shutDown how }

end Method

namespace Socket

variable {K : Type} [Kernel K]

def bind (s : Socket) (e : Endpoint) : Act K Socket := (Method.bindTo e).on s

def listen (s : Socket) (backlog : Int) : Act K Socket := (Method.listenFor backlog).on s

def connect (s : Socket) (e : Endpoint) : Act K Socket := (Method.connectTo e).on s

def shutdown (s : Socket) (how : Direction) : Act K Socket := (Method.shut how).on s

/-! ## Closing -/

def afterClose (s : Socket) : Socket :=
  { s with state := .closed, descriptor := none, file := none, pending := [] }

/-- Cancels a socket's sends: the pending ones resolve, and transfers that still hold the descriptor
are woken. -/
def cancelling (s : Socket) (m : Machine K) : Machine K :=
  let m := { m with cancelled := s.number :: m.cancelled }
  let m := m.cancelAll s.pending
  match s.descriptor with
  | some d =>
    if 1 < m.held.count d then { m with kernel := (Kernel.shutdown d .both m.kernel).2 } else m
  | none => m

/-- Removes a socket's file, if it has one, and whether the kernel minded. -/
def removing (s : Socket) (m : Machine K) : Except Errno Unit × Machine K :=
  match s.file with
  | some path =>
    let (answer, kernel) := Kernel.unlink path m.kernel
    (answer, { m with kernel })
  | none => (.ok (), m)

/-- What closing does to the shared state, and whether the kernel minded. That a file could not be
removed is no error: it stays where it is. -/
def closing (s : Socket) (m : Machine K) : Except Errno Unit × Machine K :=
  let m := (s.removing (s.cancelling m)).2
  match s.descriptor with
  | some d => m.release d
  | none => (.ok (), m)

/-- Closes a socket. It is closed also when the kernel reports an error. -/
def close (s : Socket) (m : Machine K) : Except SocketError Unit × Socket × Machine K :=
  if s.state == .closed then (.error (.invalidState .close .closed), s, m)
  else
    let (answer, m) := s.closing m
    (answer.mapError fun e => ⟨.close, .system e⟩, s.afterClose, m)

/-- Gives a socket up: closes it unless it is closed. -/
def drop (s : Socket) (m : Machine K) : Machine K := (s.close m).2.2

/-- An operation on a socket that is given up if the operation fails. -/
def orDrop {α : Type} (s : Socket) (act : Act K α) : Act K α :=
  tryCatch act fun failure => do
    modify s.drop
    throw failure

/-! ## Options -/

/-- The descriptor of a socket that is open. -/
def openDescriptor (s : Socket) (stage : Stage) : Act K Descriptor :=
  match s.descriptor with
  | some d => return d
  | none => throw (.socket (.invalidState stage s.state))

/-- The stage that errors of an option belong to. -/
def settingStage : Setting → Stage
  | .reuseAddress _ => .bind ""
  | .receiveBuffer _ => .read
  | .sendBuffer _ => .write
  | .linger _ => .close
  | .nonblocking _ => .create

/-- Sets an option that the kernel keeps. -/
def configure (s : Socket) (setting : Setting) : Act K Unit := do
  let stage := settingStage setting
  let d ← s.openDescriptor stage
  Act.call (Kernel.set d setting) fun e => ⟨stage, .option setting.name e⟩

def receiveBuffer (s : Socket) : Act K Nat := do
  let d ← s.openDescriptor .read
  match ← Act.ask (Kernel.receiveBuffer d) with
  | .ok size => return size
  | .error e => Act.fail .read (.option "SO_RCVBUF" e)

def sendBuffer (s : Socket) : Act K Nat := do
  let d ← s.openDescriptor .write
  match ← Act.ask (Kernel.sendBuffer d) with
  | .ok size => return size
  | .error e => Act.fail .write (.option "SO_SNDBUF" e)

/-- The pending error, which is forgotten by asking for it. -/
def takeError (s : Socket) : Act K (Option Errno) := do
  let d ← s.openDescriptor .read
  Act.call (Kernel.takeError d) fun e => ⟨.read, .option "SO_ERROR" e⟩

/-- How much is received at a time; at least one octet. -/
def setReadChunk (s : Socket) (size : Nat) : Socket := { s with readChunk := max size 1 }

/-- The transfer context of an operation that the state allows. -/
def link (s : Socket) (stage : Stage) (allowed : State → Bool) : Except SocketError Link :=
  match s.descriptor with
  | some d =>
    if allowed s.state then .ok ⟨d, s.quota, s.number, s.kind⟩
    else .error (.invalidState stage s.state)
  | none => .error (.invalidState stage s.state)

def writer (s : Socket) : Except SocketError Link := s.link .write State.canSend

def reader (s : Socket) : Except SocketError Link := s.link .read State.canReceive

end Socket

end PacedNet
