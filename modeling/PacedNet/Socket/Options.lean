import PacedNet.Config.Library
import PacedNet.Config.Value
import PacedNet.Socket.Lifecycle

/-!
# Options and configured sockets

The options applied to a socket right after it is created, and the settings of a
socket as a configuration section gives them. `Q` is how a quota is referred to:
by itself when it is read from a configuration, by its place among the shared
quotas when it is applied.

A configured socket is opened in several steps; one that fails gives the socket
up, so that nothing of it stays behind.
-/

namespace PacedNet

structure SocketOptions (Q : Type) where
  reuseAddress : Bool := false
  receiveBuffer : Option Nat := none
  sendBuffer : Option Nat := none
  backlog : Int := defaultBacklog
  readChunk : Nat := defaultReadChunk
  acknowledge : Bool := false
  /-- Left alone, or set to a number of seconds or to none. -/
  linger : Option (Option Nat) := none
  nonblocking : Bool := false
  quota : Option Q := none

namespace SocketOptions

variable {Q : Type} {K : Type} [Kernel K]

def isDefault (o : SocketOptions Q) : Bool :=
  !o.reuseAddress && o.receiveBuffer.isNone && o.sendBuffer.isNone && o.backlog == defaultBacklog
    && o.readChunk == defaultReadChunk && !o.acknowledge && o.linger.isNone && !o.nonblocking
    && o.quota.isNone

/-- The options that the kernel keeps, in the order they are set. -/
def settings (o : SocketOptions Q) : List Setting :=
  (if o.reuseAddress then [.reuseAddress true] else [])
    ++ (o.receiveBuffer.map Setting.receiveBuffer).toList
    ++ (o.sendBuffer.map Setting.sendBuffer).toList
    ++ (o.linger.map Setting.linger).toList
    ++ (if o.nonblocking then [.nonblocking true] else [])

def apply (o : SocketOptions QuotaId) (s : Socket) : Act K Socket := do
  o.settings.forM s.configure
  return { s.setReadChunk o.readChunk with acknowledge := o.acknowledge, quota := o.quota }

end SocketOptions

structure SocketConfig (Q : Type) where
  /-- The path of the section they come from. -/
  scope : String
  family : Family
  kind : Kind
  bind : Option Endpoint
  connect : Option Endpoint
  options : SocketOptions Q

/-- What reading settings may end with. -/
inductive SetupError where
  | socket (error : SocketError)
  | config (error : ConfigError)
deriving DecidableEq

def SetupError.toFailure : SetupError → Failure
  | socket e => .socket e
  | config e => .config e

namespace SocketConfig

variable {Q : Type} {K : Type} [Kernel K]

def plain (family : Family) (kind : Kind) : SocketConfig Q := ⟨"", family, kind, none, none, {}⟩

/-! ## Reading -/

/-- An endpoint, where the section has one. -/
def readEndpoint (n : Config.Node) (key : String) : Except SetupError (Option Endpoint) :=
  match n.value? key with
  | none => .ok none
  | some text => ((Endpoint.parse text).map some).mapError .socket

def badValue (n : Config.Node) (key value expected : String) : SetupError :=
  .config (.badValue n.path key value expected)

/-- The family: the one named, or that of an endpoint, where a host name is of version 4. -/
def readFamily (n : Config.Node) (bind connect : Option Endpoint) : Except SetupError Family :=
  match n.value? "family" with
  | some name =>
    match Family.ofName? name with
    | some f => .ok f
    | none => .error (badValue n "family" name "unix, ipv4 or ipv6")
  | none =>
    match bind.or connect with
    | some e => .ok (e.family?.getD .ipv4)
    | none => .error (.config (.missing n.path "family"))

def readKind (n : Config.Node) : Except SetupError Kind :=
  match n.value? "type" with
  | some name =>
    match Kind.ofName? name with
    | some k => .ok k
    | none => .error (badValue n "type" name "stream or datagram")
  | none => .ok .stream

/-- A number of bytes, where the section has one. -/
def readCount (n : Config.Node) (key : String) : Except SetupError (Option Nat) :=
  if n.hasKey key then
    match n.getAs ByteSize key with
    | .error e => .error (.config e)
    | .ok size =>
      if size.bytes < 0 then .error (badValue n key size.display "a non-negative byte quantity")
      else .ok (some size.bytes.toNat)
  else .ok none

/-- The quota of a bandwidth: the whole of it, or the fraction given. Without a bandwidth there is
none. -/
def readQuota (n : Config.Node) (now : Instant) : Except SetupError (Option Quota) :=
  if n.hasKey "bandwidth" then
    match n.getAs ByteSize "bandwidth" with
    | .error e => .error (.config e)
    | .ok capacity =>
      if n.hasKey "quota" then ((n.quota now "quota" capacity).map some).mapError .config
      else .ok (some (Quota.unlimited now capacity))
  else .ok none

def ofNode (n : Config.Node) (now : Instant) : Except SetupError (SocketConfig Quota) := do
  let bind ← readEndpoint n "bind"
  let connect ← readEndpoint n "connect"
  let family ← readFamily n bind connect
  let kind ← readKind n
  let receiveBuffer ← readCount n "receive buffer"
  let sendBuffer ← readCount n "send buffer"
  let backlog : Signed32 := n.getAsOr "backlog" ⟨50, by decide, by decide⟩
  let readChunk ← readCount n "read chunk"
  let quota ← readQuota n now
  return {
    scope := n.path, family, kind, bind, connect
    options := {
      reuseAddress := n.getAsOr "reuse address" false
      receiveBuffer, sendBuffer
      backlog := backlog.value
      readChunk := readChunk.getD defaultReadChunk
      acknowledge := n.getAsOr "acknowledge" false
      quota } }

/-- The settings of a section of a text. -/
def ofText (library : Config.Library) (text : String) (path : List String) (now : Instant) :
    Except SetupError (SocketConfig Quota) := do
  let root ← (library.parseText text).mapError .config
  let n ← (root.enterAll path).mapError .config
  ofNode n now

/-! ## Opening -/

/-- Puts the quota of the settings among the shared ones. -/
def enlist (c : SocketConfig Quota) (m : Machine K) : SocketConfig QuotaId × Machine K :=
  let (quota, m) : Option QuotaId × Machine K :=
    match c.options.quota with
    | none => (none, m)
    | some q => let (id, m) := m.addQuota q; (some id, m)
  ({ scope := c.scope, family := c.family, kind := c.kind, bind := c.bind, connect := c.connect,
     options := { c.options with quota } }, m)

def openSocket (c : SocketConfig QuotaId) : Act K Socket := do
  let s ← Socket.create c.family c.kind
  s.orDrop (c.options.apply s)

/-- An endpoint that the operation cannot do without. -/
def required (c : SocketConfig QuotaId) (key : String) (e : Option Endpoint) : Act K Endpoint :=
  match e with
  | some e => return e
  | none => throw (.config (.missing c.scope key))

/-- Opens, binds and listens; a datagram socket is done when it is bound. -/
def listen (c : SocketConfig QuotaId) : Act K Socket := do
  let e ← c.required "bind" c.bind
  let s ← c.openSocket
  let s ← s.orDrop (s.bind e)
  match c.kind with
  | .stream => s.orDrop (s.listen c.options.backlog)
  | .datagram => return s

/-- Opens, binds if there is an endpoint for it, and connects. -/
def connectSocket (c : SocketConfig QuotaId) : Act K Socket := do
  let e ← c.required "connect" c.connect
  let s ← c.openSocket
  let s ← match c.bind with
    | some own => s.orDrop (s.bind own)
    | none => pure s
  s.orDrop (s.connect e)

end SocketConfig

end PacedNet
