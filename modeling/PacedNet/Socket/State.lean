import PacedNet.Number.Reading
import PacedNet.Text.Blank

/-!
# What a socket is and how far it has come

A socket is of a kind and moves through a lifecycle: created, bound, listening
or connected, shut down in one direction or both, closed. Its state alone says
whether it may send and whether it may receive.
-/

namespace PacedNet

inductive Kind where
  /-- An ordered stream of octets. -/
  | stream
  /-- Messages with boundaries. -/
  | datagram
deriving DecidableEq, Repr

namespace Kind

def name : Kind → String
  | stream => "stream"
  | datagram => "datagram"

def number : Kind → Nat
  | stream => 1
  | datagram => 2

/-- The kind of a name, in any case and with blanks around it. -/
def ofName? (s : String) : Option Kind :=
  let word := String.ofList (asciiLower (Text.trim s.toList))
  if word = "stream" then some stream
  else if ["datagram", "dgram"].contains word then some datagram
  else none

end Kind

/-- Which directions a shutdown ends. -/
inductive Direction where
  | read
  | write
  | both
deriving DecidableEq, Repr

inductive State where
  | created
  | bound
  | listening
  | connected
  | shutDown (how : Direction)
  | closed
deriving DecidableEq, Repr

namespace State

def canSend : State → Bool
  | connected | shutDown .read => true
  | _ => false

def canReceive : State → Bool
  | connected | shutDown .write => true
  | _ => false

def text : State → String
  | created => "created"
  | bound => "bound"
  | listening => "listening"
  | connected => "connected"
  | shutDown .read => "shut down for reading"
  | shutDown .write => "shut down for writing"
  | shutDown .both => "shut down"
  | closed => "closed"

end State

end PacedNet
