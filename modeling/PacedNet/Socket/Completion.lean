import PacedNet.Socket.Error
import PacedNet.Socket.Payload

/-!
# The outcome of an asynchronous send

A slot waits for one result. Whoever resolves it goes through three steps, and
others may come in between: the result is **stored** and the callback taken, the
callback is **called**, the slot is marked **done**. Only a slot that holds no
result takes one, so of several resolvers one wins; only a slot that is done
shows its result.
-/

namespace PacedNet

/-- A report, or the error that stopped the send. -/
abbrev SendResult := Except SocketError SendReport

instance : DecidableEq SendResult := fun a b =>
  match a, b with
  | .ok x, .ok y =>
    if h : x = y then isTrue (by rw [h]) else isFalse (by intro e; injection e; contradiction)
  | .error x, .error y =>
    if h : x = y then isTrue (by rw [h]) else isFalse (by intro e; injection e; contradiction)
  | .ok _, .error _ => isFalse (by intro e; injection e)
  | .error _, .ok _ => isFalse (by intro e; injection e)

/-- The result of a send that was given up. -/
def cancelledSend : SendResult := .error ⟨.write, .cancelled⟩

/-- A result to come. -/
structure Slot where
  result : Option SendResult
  /-- A callback waits to be called. -/
  callback : Bool
  /-- The callback, if any, has returned. -/
  done : Bool
deriving DecidableEq

namespace Slot

def new (callback : Bool) : Slot := ⟨none, callback, false⟩

/-- Stores a result and takes the callback; none if there is a result already. -/
def store (s : Slot) (r : SendResult) : Option Slot :=
  match s.result with
  | some _ => none
  | none => some { s with result := some r, callback := false }

def finish (s : Slot) : Slot := { s with done := true }

/-- What a holder of the handle sees. -/
def peek (s : Slot) : Option SendResult := if s.done then s.result else none

end Slot

def Cause.valueText : Cause → String
  | .system errno => s!"Os \x7b errno: {errno} \x7d"
  | .option name errno => s!"Option \x7b name: {Text.quoted name}, errno: {errno} \x7d"
  | .invalidState state =>
    let shown := match state with
      | .created => "Created"
      | .bound => "Bound"
      | .listening => "Listening"
      | .connected => "Connected"
      | .shutDown .read => "Shutdown(Read)"
      | .shutDown .write => "Shutdown(Write)"
      | .shutDown .both => "Shutdown(Both)"
      | .closed => "Closed"
    s!"InvalidState \x7b state: {shown} \x7d"
  | .wrongReply got => s!"AckMismatch \x7b got: {got.toNat} \x7d"
  | .unresolved reason => s!"Unresolved \x7b reason: {Text.quoted reason} \x7d"
  | .truncated length => s!"Truncated \x7b len: {length} \x7d"
  | cause => cause.kind

def SocketError.valueText (e : SocketError) : String :=
  let cause := e.cause.valueText
  match e.stage with
  | .create => s!"Create \x7b cause: {cause} \x7d"
  | .address text => s!"Address \x7b addr: {Text.quoted text}, cause: {cause} \x7d"
  | .bind text => s!"Bind \x7b addr: {Text.quoted text}, cause: {cause} \x7d"
  | .listen backlog => s!"Listen \x7b backlog: {backlog}, cause: {cause} \x7d"
  | .accept => s!"Accept \x7b cause: {cause} \x7d"
  | .connect text => s!"Connect \x7b addr: {Text.quoted text}, cause: {cause} \x7d"
  | .read => s!"Read \x7b cause: {cause} \x7d"
  | .write => s!"Write \x7b cause: {cause} \x7d"
  | .shutdown => s!"Shutdown \x7b cause: {cause} \x7d"
  | .close => s!"Close \x7b cause: {cause} \x7d"

def Slot.text (s : Slot) : String :=
  let result := match s.peek with
    | none => "None"
    | some (.ok report) => s!"Some(Ok({report.text}))"
    | some (.error e) => s!"Some(Err({e.valueText}))"
  s!"SendHandle \x7b result: {result} \x7d"

end PacedNet
