import PacedNet.Socket.State
import PacedNet.Text.Quoted

/-!
# Socket errors

An error says at which stage of a socket's life an operation failed, and why.
The stage carries what the operation was given, the cause what went wrong; the
wording of either is a function of its own.
-/

namespace PacedNet

abbrev Errno := Int

namespace Errno

def notPermitted : Errno := 1
def notFound : Errno := 2
def interrupted : Errno := 4
def badDescriptor : Errno := 9
def wouldBlock : Errno := 11
def notADirectory : Errno := 20
def isADirectory : Errno := 21
def brokenPipe : Errno := 32
def wrongKind : Errno := 91
def notSupported : Errno := 95
def addressInUse : Errno := 98
def addressNotAvailable : Errno := 99
def networkUnreachable : Errno := 101
def connectionReset : Errno := 104
def notConnected : Errno := 107
def connectionRefused : Errno := 111

/-- The errors that have a name here, and their texts. -/
def named : List (Errno × String) :=
  [(2, "no such file or directory"), (4, "interrupted by signal"), (9, "bad file descriptor"),
   (11, "resource temporarily unavailable"), (13, "permission denied"), (22, "invalid argument"),
   (24, "too many open files"), (32, "broken pipe"), (36, "name too long"),
   (95, "operation not supported"), (97, "address family not supported"),
   (98, "address already in use"), (99, "address not available"), (101, "network unreachable"),
   (104, "connection reset by peer"), (105, "no buffer space available"), (107, "not connected"),
   (110, "connection timed out"), (111, "connection refused"), (115, "operation in progress")]

def text (e : Errno) : String := (named.lookup e).getD s!"errno {e}"

end Errno

inductive Cause where
  | system (errno : Errno)
  /-- The system refused an option. -/
  | option (name : String) (errno : Errno)
  /-- The socket's state does not allow the operation. -/
  | invalidState (state : State)
  | peerClosed
  /-- The socket was closed while the operation was pending. -/
  | cancelled
  /-- The peer answered with something other than an acknowledgement. -/
  | wrongReply (got : UInt8)
  /-- The quota allows nothing at all. -/
  | quotaExhausted
  | addressTooLong
  | unresolved (reason : String)
  | familyMismatch
  /-- Data came without the descriptor that was asked for. -/
  | missingDescriptor
  | truncated (length : Nat)
deriving DecidableEq, Repr

namespace Cause

def text : Cause → String
  | system errno => errno.text
  | option name errno => s!"option {name}: {errno.text}"
  | invalidState state => s!"invalid state: socket is {state.text}"
  | peerClosed => "connection closed by peer"
  | cancelled => "cancelled by close"
  | wrongReply got =>
    let ds := Nat.toDigits 16 got.toNat
    let padded := String.ofList (List.replicate (2 - ds.length) '0' ++ ds)
    s!"ACK failed (got 0x{padded})"
  | quotaExhausted => "quota allows no throughput"
  | addressTooLong => "address too long"
  | unresolved reason => s!"unresolved: {reason}"
  | familyMismatch => "address family does not match socket"
  | missingDescriptor => "no descriptor in control message"
  | truncated length => s!"datagram of {length} bytes truncated"

def kind : Cause → String
  | system _ => "Os"
  | option .. => "Option"
  | invalidState _ => "InvalidState"
  | peerClosed => "PeerClosed"
  | cancelled => "Cancelled"
  | wrongReply _ => "AckMismatch"
  | quotaExhausted => "QuotaExhausted"
  | addressTooLong => "AddressTooLong"
  | unresolved _ => "Unresolved"
  | familyMismatch => "FamilyMismatch"
  | missingDescriptor => "MissingDescriptor"
  | truncated _ => "Truncated"

def errno? : Cause → Option Errno
  | system errno => some errno
  | option _ errno => some errno
  | _ => none

def isInvalidState : Cause → Bool
  | invalidState _ => true
  | _ => false

end Cause

/-- What the operation that failed was, with what it was given. -/
inductive Stage where
  | create
  | address (text : String)
  | bind (text : String)
  | listen (backlog : Int)
  | accept
  | connect (text : String)
  | read
  | write
  | shutdown
  | close
deriving DecidableEq, Repr

namespace Stage

def name : Stage → String
  | create => "create"
  | address _ => "address"
  | bind _ => "bind"
  | listen _ => "listen"
  | accept => "accept"
  | connect _ => "connect"
  | read => "read"
  | write => "write"
  | shutdown => "shutdown"
  | close => "close"

/-- How the text of an error at this stage starts. -/
def text : Stage → String
  | create => "socket() failed"
  | address text => s!"address {Text.quoted text}"
  | bind text => s!"bind({text}) failed"
  | listen backlog => s!"listen(backlog={backlog}) failed"
  | accept => "accept() failed"
  | connect text => s!"connect({text}) failed"
  | read => "read() failed"
  | write => "write() failed"
  | shutdown => "shutdown() failed"
  | close => "close() failed"

/-- The stage without what the operation was given: it was refused before that was looked at. -/
def blank : Stage → Stage
  | address _ => address ""
  | bind _ => bind ""
  | listen _ => listen 0
  | connect _ => connect ""
  | stage => stage

end Stage

structure SocketError where
  stage : Stage
  cause : Cause
deriving DecidableEq, Repr

/-- The broad class of an error, for callers that know sockets only as streams of data. -/
inductive ErrorClass where
  | permissionDenied
  | addrInUse
  | addrNotAvailable
  | wouldBlock
  | connectionRefused
  | connectionReset
  | interrupted
  | invalidInput
  | invalidData
  | notConnected
  | brokenPipe
  | timedOut
  | other
deriving DecidableEq, Repr

def ErrorClass.name : ErrorClass → String
  | permissionDenied => "PermissionDenied"
  | addrInUse => "AddrInUse"
  | addrNotAvailable => "AddrNotAvailable"
  | wouldBlock => "WouldBlock"
  | connectionRefused => "ConnectionRefused"
  | connectionReset => "ConnectionReset"
  | interrupted => "Interrupted"
  | invalidInput => "InvalidInput"
  | invalidData => "InvalidData"
  | notConnected => "NotConnected"
  | brokenPipe => "BrokenPipe"
  | timedOut => "TimedOut"
  | other => "Other"

def Errno.errorClass (e : Errno) : ErrorClass :=
  let known : List (Errno × ErrorClass) :=
    [(1, .permissionDenied), (13, .permissionDenied), (98, .addrInUse), (99, .addrNotAvailable),
     (11, .wouldBlock), (111, .connectionRefused), (104, .connectionReset), (4, .interrupted),
     (22, .invalidInput), (107, .notConnected), (32, .brokenPipe), (110, .timedOut)]
  (known.lookup e).getD .other

def Cause.errorClass : Cause → ErrorClass
  | .system errno => errno.errorClass
  | .option _ errno => errno.errorClass
  | .invalidState _ => .notConnected
  | .peerClosed => .connectionReset
  | .cancelled => .interrupted
  | .wrongReply _ => .invalidData
  | .quotaExhausted => .wouldBlock
  | .addressTooLong => .invalidInput
  | .unresolved _ => .invalidInput
  | .familyMismatch => .invalidInput
  | .missingDescriptor => .invalidData
  | .truncated _ => .invalidData

namespace SocketError

def message (e : SocketError) : String := s!"{e.stage.text}: {e.cause.text}"

/-- The error of an operation that the state does not allow. -/
def invalidState (stage : Stage) (state : State) : SocketError := ⟨stage.blank, .invalidState state⟩

end SocketError

end PacedNet
