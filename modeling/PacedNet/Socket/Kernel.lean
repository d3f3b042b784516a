import PacedNet.Address.Endpoint

/-!
# What a socket asks of its system

The calls that everything above is written against. A kernel is any type of
states with these calls; each answers from a state and leaves another. What is
proved of sockets over an arbitrary kernel holds whatever the system answers.

A call that would have to wait is answered like any other: a kernel that cannot
go on says so by an error. Where a signal interrupts a call that accepts or moves
data, making it again is part of the call; a connect that is interrupted goes on
by itself and is waited for.
-/

namespace PacedNet

abbrev Descriptor := Nat

/-- A descriptor of an open file, which may travel along with data. -/
abbrev OpenFile := Nat

/-- An option of a socket that the kernel keeps. -/
inductive Setting where
  | reuseAddress (on : Bool)
  | receiveBuffer (size : Nat)
  | sendBuffer (size : Nat)
  /-- How long closing waits for data to leave, in seconds; not at all without a number. -/
  | linger (seconds : Option Nat)
  | nonblocking (on : Bool)
deriving DecidableEq, Repr

/-- What errors call an option. -/
def Setting.name : Setting → String
  | reuseAddress _ => "SO_REUSEADDR"
  | receiveBuffer _ => "SO_RCVBUF"
  | sendBuffer _ => "SO_SNDBUF"
  | linger _ => "SO_LINGER"
  | nonblocking _ => "O_NONBLOCK"

structure Incoming where
  /-- The octets that found room. -/
  octets : List UInt8
  /-- The length of the message; more than the octets where it was cut. -/
  length : Nat
  passed : Option OpenFile
deriving DecidableEq, Repr

/-- The flag of a send that must not wait. -/
def dontWait : Nat := 64

/-- The flag of a send that must not signal a broken connection. -/
def noSignal : Nat := 16384

/-- The flag of out-of-band data. -/
def outOfBand : Nat := 1

/-- The system calls, over states `K`. -/
class Kernel (K : Type) where
  /-- The addresses of a host name, in the resolver's order, or the text of its error. -/
  lookUp : String → UInt16 → K → Except String (List Internet) × K
  create : Family → Kind → K → Except Errno Descriptor × K
  bind : Descriptor → Endpoint → K → Except Errno Unit × K
  listen : Descriptor → Int → K → Except Errno Unit × K
  /-- The next waiting connection and the address of its other end. -/
  accept : Descriptor → K → Except Errno (Descriptor × Option Endpoint) × K
  connect : Descriptor → Endpoint → K → Except Errno Unit × K
  /-- Waits until something could be sent, which ends a connect that goes on by itself. -/
  awaitWritable : Descriptor → K → Except Errno Unit × K
  ownName : Descriptor → K → Option Endpoint
  peerName : Descriptor → K → Option Endpoint
  set : Descriptor → Setting → K → Except Errno Unit × K
  receiveBuffer : Descriptor → K → Except Errno Nat
  sendBuffer : Descriptor → K → Except Errno Nat
  /-- The pending error, which is forgotten by asking for it. -/
  takeError : Descriptor → K → Except Errno (Option Errno) × K
  /-- Sends octets under flags, with a descriptor attached or without; how many were taken. -/
  send : Descriptor → List UInt8 → Nat → Option OpenFile → K → Except Errno Nat × K
  /-- Receives into a room of that many octets; no octets at the end of a stream. -/
  receive : Descriptor → Nat → K → Except Errno Incoming × K
  /-- The length of the next message, which stays where it is. -/
  nextLength : Descriptor → K → Except Errno Nat × K
  /-- At least one octet could be received at once. -/
  ready : Descriptor → K → Bool × K
  /-- How many octets a descriptor can deliver at most before a receive ends or fails. -/
  waiting : Descriptor → K → Nat
  shutdown : Descriptor → Direction → K → Except Errno Unit × K
  close : Descriptor → K → Except Errno Unit × K
  /-- Removes a file. -/
  unlink : List UInt8 → K → Except Errno Unit × K
  duplicate : OpenFile → K → Except Errno OpenFile × K
  closeFile : OpenFile → K → K

end PacedNet
