import PacedNet.Host.Calls
import PacedNet.Socket.Options
import PacedNet.Socket.Send

/-!
# Sessions

A program at work on a host of its own, with a name for each of its sockets and
quotas. An operation finds the socket by its name and puts back what it has
become; a socket whose name is given to another is dropped.

Where an operation fails, the socket stays as it was, and so does everything
under other names.
-/

namespace PacedNet

/-- Who runs the job of an asynchronous send. -/
inductive Spawner where
  /-- The caller itself, at once. -/
  | caller
  /-- Nobody, until the session says so. -/
  | queue
  /-- Nobody at all: the job is dropped. -/
  | nobody
  /-- A worker that the caller waits for. -/
  | worker
  /-- A worker that stays in the middle of its transfer until the send is resolved. -/
  | background
deriving DecidableEq, Repr

structure Session where
  machine : Machine Host
  sockets : List (String × Socket)
  quotas : List (String × QuotaId)
  /-- The slot of each handle, later handles first. -/
  handles : List (String × SlotId)
  /-- What each slot is called in the log. -/
  labels : List (SlotId × String)
  queue : List Job
  /-- Jobs in the middle of their transfer. -/
  running : List Job
  /-- How many of the callbacks made have been read. -/
  read : Nat

/-- Why an operation of a session has no answer. -/
inductive Trouble where
  | unknown (name : String)
  | failed (failure : Failure)
  | quota (error : QuotaError)

abbrev SessionAct := ExceptT Trouble (StateM Session)

namespace Session

def empty : Session := ⟨.start .empty, [], [], [], [], [], [], 0⟩

/-- Gives a name a new meaning. -/
def rename {α : Type} (table : List (String × α)) (name : String) (a : α) : List (String × α) :=
  (name, a) :: table.filter (·.1 ≠ name)

def run {α : Type} (act : Act Host α) : SessionAct α := do
  let (answer, machine) := act.run.run (← get).machine
  modify fun s => { s with machine }
  match answer with
  | .ok a => return a
  | .error failure => throw (.failed failure)

/-- What a table says about a name. -/
def find {α : Type} (table : Session → List (String × α)) (name : String) : SessionAct α := do
  match (table (← get)).lookup name with
  | some a => return a
  | none => throw (.unknown name)

def socket (name : String) : SessionAct Socket := find Session.sockets name

/-- Drops the jobs whose transfer has nothing left to do. -/
def settle (s : Session) : Session :=
  let (finished, running) := s.running.partition fun job => s.machine.isResolved job.slot
  { s with running, machine := finished.foldl (fun m job => job.drop m) s.machine }

/-- Puts back what the socket of a name has become. -/
def keep (name : String) (socket : Socket) : SessionAct Unit :=
  modify fun s => { s with sockets := rename s.sockets name socket }

/-- Gives a name to a new socket; the one that had it is dropped. -/
def install (name : String) (socket : Socket) : SessionAct Unit :=
  modify fun s =>
    let machine := match s.sockets.lookup name with
      | some old => old.drop s.machine
      | none => s.machine
    settle { s with machine, sockets := rename s.sockets name socket }

def drop (name : String) : SessionAct Unit := do
  let socket ← socket name
  modify fun s => settle { s with
    machine := socket.drop s.machine, sockets := s.sockets.filter (·.1 ≠ name) }

def change (name : String) (f : Socket → Act Host Socket) : SessionAct Unit := do
  keep name (← run (f (← socket name)))

def ask {α : Type} (name : String) (f : Socket → Act Host α) : SessionAct α := do
  run (f (← socket name))

/-! ## Sockets -/

def create (name : String) (family : Family) (kind : Kind) : SessionAct Unit := do
  install name (← run (Socket.create family kind))

/-- How a configured socket is brought up. -/
inductive Opening where
  | opened
  | listening
  | connected
deriving DecidableEq, Repr

def bringUp (name : String) (how : Opening) (config : SocketConfig Quota) : SessionAct Unit := do
  let (config, machine) := config.enlist (← get).machine
  modify fun s => { s with machine }
  install name (← run (match how with
    | .opened => config.openSocket
    | .listening => config.listen
    | .connected => config.connectSocket))

/-- Brings up a socket as a section of a text configures it. -/
def bringUpFrom (name : String) (how : Opening) (library : Config.Library) (text : String)
    (path : List String) : SessionAct Unit := do
  match SocketConfig.ofText library text path (← get).machine.now with
  | .error e => throw (.failed e.toFailure)
  | .ok config => bringUp name how config

def accept (name new : String) : SessionAct Unit := do
  install new (← ask name Socket.accept)

/-- Closes a socket, which is closed also when that fails. -/
def close (name : String) : SessionAct Unit := do
  let (answer, socket, machine) := (← socket name).close (← get).machine
  modify fun s => { s with machine }
  keep name socket
  modify settle
  match answer with
  | .ok () => return ()
  | .error e => throw (.failed (.socket e))

/-! ## Quotas -/

def addQuota (name : String) (quota : Quota) : SessionAct Unit :=
  modify fun s =>
    let (id, machine) := s.machine.addQuota quota
    { s with machine, quotas := rename s.quotas name id }

def quotaAt (s : Session) (id : QuotaId) : Option Quota := s.machine.quotas[id]?

/-- Changes the fraction of a quota to that of a text. -/
def setFraction (name text : String) : SessionAct Unit := do
  let id ← find Session.quotas name
  let some quota := (← get).quotaAt id | throw (.unknown name)
  match quota.setFractionText text with
  | .error e => throw (.quota e)
  | .ok quota =>
    modify fun s => { s with machine := { s.machine with quotas := s.machine.quotas.set id quota } }

/-- What a socket's quota is called: by its name, or by what it allows. -/
def quotaLabel (s : Session) (socket : Socket) : Option String :=
  socket.quota.bind fun id =>
    match s.quotas.find? (·.2 == id) with
    | some (name, _) => some name
    | none => (s.quotaAt id).map fun quota => s!"own {quota.display}"

/-! ## Files -/

def fileExists (path : String) : SessionAct Bool := do
  return (← get).machine.kernel.fileExists (Text.encode path)

def onHost {α : Type} (f : Host → α × Host) : SessionAct α := do
  let s ← get
  let (a, kernel) := f s.machine.kernel
  set { s with machine := { s.machine with kernel } }
  return a

def makeFile (path : String) : SessionAct Unit :=
  onHost fun h => ((), h.makeFile (Text.encode path))

def removeFile (path : String) : SessionAct Bool := onHost fun h =>
  let (answer, h) := h.unlink (Text.encode path)
  (answer.isOk, h)

def content (file : OpenFile) : SessionAct (List UInt8) := do
  return (← get).machine.kernel.contents.getD file []

end Session

end PacedNet
