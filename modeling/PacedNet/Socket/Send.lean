import PacedNet.Socket.Lifecycle

/-!
# Sends

A synchronous send runs its transfer at once and hands the result back. An
asynchronous one leaves a job behind and answers a slot: whoever runs the job
resolves the slot with the transfer's result, whoever drops it resolves the slot
as cancelled. A job holds the descriptor until it ends, and never waits for an
acknowledgement.

A callback may unwind instead of returning. Its slot then stays as it is, and
the operation that called it ends there and only lets go of what it holds.
-/

namespace PacedNet

structure SendOptions where
  flags : Nat
  /-- A descriptor that goes along. -/
  pass : Option OpenFile
deriving DecidableEq, Repr

/-- An asynchronous send that has not run. -/
structure Job where
  slot : SlotId
  link : Link
  parcel : Parcel
deriving DecidableEq, Repr

namespace Payload

def parcel (p : Payload) (options : SendOptions) : Parcel :=
  ⟨p.encode, p.length, options.flags, options.pass⟩

end Payload

/-- Closes the descriptor that goes along, if there is one. -/
def Parcel.closePass {K : Type} [Kernel K] (parcel : Parcel) (k : K) : K :=
  match parcel.pass with
  | some file => Kernel.closeFile file k
  | none => k

namespace Socket

variable {K : Type} [Kernel K]

/-- Sends a payload, and waits for its acknowledgement where that is on. -/
def send (s : Socket) (p : Payload) (options : SendOptions) : Act K SendReport := do
  let link ← Act.ofExcept s.writer
  Transfer.run link (p.parcel options) s.acknowledge

/-- Notes a slot as pending and forgets those that are resolved. -/
def register (s : Socket) (m : Machine K) (slot : SlotId) : Socket :=
  { s with pending := s.pending.filter (!m.isResolved ·) ++ [slot] }

def pendingSends (s : Socket) (m : Machine K) : Nat :=
  (s.pending.filter (!m.isResolved ·)).length

/-- What starting an asynchronous send answers: the slot, the job unless the send failed at once,
and the socket that remembers the slot. -/
structure Dispatched where
  slot : SlotId
  job : Option Job
  socket : Socket

/-- What an asynchronous send needs: its link, and a copy of the descriptor that goes along, whose
original may be gone before the job runs. -/
def prepare (s : Socket) (options : SendOptions) (m : Machine K) :
    Except SocketError (Link × Option OpenFile) × Machine K :=
  match s.writer with
  | .error e => (.error e, m)
  | .ok link =>
    match options.pass with
    | none => (.ok (link, none), m)
    | some file =>
      let (copy, kernel) := Kernel.duplicate file m.kernel
      let prepared : Except SocketError (Link × Option OpenFile) :=
        match copy with
        | .error e => .error ⟨.write, .system e⟩
        | .ok copy => .ok (link, some copy)
      (prepared, { m with kernel })

/-- Starts an asynchronous send. Whatever is wrong is told through the slot. -/
def dispatch (s : Socket) (p : Payload) (options : SendOptions) (callback : Bool) (m : Machine K) :
    Dispatched × Machine K :=
  let (slot, m) := m.addSlot callback
  match s.prepare options m with
  | (.error e, m) => (⟨slot, none, s⟩, m.resolve slot (.error e))
  | (.ok (link, pass), m) =>
    let job : Job := ⟨slot, link, p.parcel { options with pass }⟩
    (⟨slot, some job, s.register m slot⟩, m.hold link.descriptor)

/-- Starts an asynchronous send that is refused and whose callback unwinds. -/
def dispatchUnwinding (s : Socket) (options : SendOptions) (m : Machine K) : Option (Machine K) :=
  let (slot, m) := m.addSlot true
  match s.prepare options m with
  | (.error e, m) => m.unwind slot (.error e)
  | (.ok _, _) => none

/-- Closes a socket while the callback of one of its pending sends, the `i`-th, unwinds. The sends
before it are cancelled and those after it forgotten; descriptor and file stay with the socket. -/
def closeUnwinding (s : Socket) (i : Nat) (m : Machine K) : Option (Socket × Machine K) := do
  if s.state == .closed then none
  else
    let id ← s.pending[i]?
    let m := { m with cancelled := s.number :: m.cancelled }
    let m ← (m.cancelAll (s.pending.take i)).unwind id cancelledSend
    return ({ s with state := .closed, pending := [] }, m)

end Socket

namespace Job

def text (_ : Job) : String := "Job \x7b pending: true \x7d"

variable {K : Type} [Kernel K]

/-- Lets go of what a job holds: the copy of a descriptor that goes along, then the socket's. -/
def letGo (job : Job) (m : Machine K) : Machine K :=
  let kernel := job.parcel.closePass m.kernel
  (Machine.release { m with kernel } job.link.descriptor).2

/-- Runs a job: its slot gets what the transfer ended with. A fault ends the job alone and leaves
the slot as it is. -/
def run (job : Job) (m : Machine K) : Option ArithmeticFault × Machine K :=
  let (answer, m) := (Transfer.run job.link job.parcel false).run m
  let (fault, m) : Option ArithmeticFault × Machine K :=
    match answer with
    | .ok report => (none, m.resolve job.slot (.ok report))
    | .error (.socket e) => (none, m.resolve job.slot (.error e))
    | .error (.fault f) => (some f, m)
    | .error (.config _) => (none, m)
  (fault, job.letGo m)

def drop (job : Job) (m : Machine K) : Machine K :=
  job.letGo (m.resolve job.slot cancelledSend)

/-- Runs a job whose callback unwinds; none if the callback is not called. -/
def runUnwinding (job : Job) (m : Machine K) : Option (Machine K) :=
  let (answer, m) := (Transfer.run job.link job.parcel false).run m
  let unwound := match answer with
    | .ok report => m.unwind job.slot (.ok report)
    | .error (.socket e) => m.unwind job.slot (.error e)
    | .error _ => none
  unwound.map job.letGo

/-- Drops a job whose callback unwinds. -/
def dropUnwinding (job : Job) (m : Machine K) : Option (Machine K) :=
  (m.unwind job.slot cancelledSend).map job.letGo

end Job

end PacedNet
