import PacedNet.Session.Table
import PacedNet.Socket.Receive

/-!
# Handles of a session

An asynchronous send gets a handle, and its job goes to whoever is to run it. A
fault of the arithmetic ends whoever ran the job: the caller answers with it, a
worker vanishes, and the jobs that were queued behind it are dropped.
-/

namespace PacedNet

namespace Session

/-- What a send is made with: the descriptor is that of a new file. -/
def sendOptions (flags : Nat) (pass : Option (List UInt8)) : SessionAct SendOptions := do
  match pass with
  | none => return ⟨flags, none⟩
  | some text => return ⟨flags, some (← onHost fun h => h.openFile text)⟩

def send (name : String) (payload : Payload) (options : SendOptions) : SessionAct SendReport :=
  ask name fun socket => socket.send payload options

/-- Runs a job; the fault that ended it, if any. -/
def runJob (job : Job) : SessionAct (Option ArithmeticFault) := do
  let (fault, machine) := job.run (← get).machine
  modify fun s => { s with machine }
  return fault

def dropJob (job : Job) : SessionAct Unit :=
  modify fun s => { s with machine := job.drop s.machine }

def raise (fault : Option ArithmeticFault) : SessionAct Unit :=
  match fault with
  | some f => throw (.failed (.fault f))
  | none => return ()

/-- Hands a job to whoever is to run it. -/
def assign (spawner : Spawner) (job : Job) : SessionAct Unit := do
  match spawner with
  | .caller => raise (← runJob job)
  | .worker => let _ ← runJob job
  | .nobody => dropJob job
  | .queue => modify fun s => { s with queue := s.queue ++ [job] }
  | .background => modify fun s => { s with running := s.running ++ [job] }

def slot (handle : String) : SessionAct Slot := do
  let id ← find Session.handles handle
  match (← get).machine.slots[id]? with
  | some slot => return slot
  | none => throw (.unknown handle)

def dispatch (name handle : String) (payload : Payload) (options : SendOptions) (callback : Bool)
    (spawner : Spawner) : SessionAct Bool := do
  let (started, machine) := (← socket name).dispatch payload options callback (← get).machine
  modify fun s => { s with machine, labels := (started.slot, handle) :: s.labels }
  keep name started.socket
  match started.job with
  | some job => assign spawner job
  | none => pure ()
  modify fun s => { s with handles := rename s.handles handle started.slot }
  return (← slot handle).done

/-- Runs queued jobs in order; behind a fault the rest is dropped. -/
def runJobs : List Job → SessionAct Unit
  | [] => return ()
  | job :: rest => do
    match ← runJob job with
    | none => runJobs rest
    | some f =>
      rest.forM dropJob
      throw (.failed (.fault f))

def takeQueue : SessionAct (List Job) := do
  let jobs := (← get).queue
  modify fun s => { s with queue := [] }
  return jobs

/-- Runs all queued jobs; how many there were. -/
def runQueue : SessionAct Nat := do
  let jobs ← takeQueue
  runJobs jobs
  return jobs.length

def dropQueue : SessionAct Nat := do
  let jobs ← takeQueue
  jobs.forM dropJob
  return jobs.length

/-- The callbacks made since they were last read. -/
def calls : SessionAct (List (String × SendResult)) := do
  let s ← get
  set { s with read := s.machine.calls.length }
  return (s.machine.calls.drop s.read).map fun (id, result) =>
    ((s.labels.lookup id).getD "", result)

/-- Receives data with a descriptor, and reads the file that came. -/
def receivePassed (name : String) : SessionAct (List UInt8 × List UInt8) := do
  let (data, file) ← ask name Socket.receivePassed
  return (data, ← content file)

end Session

end PacedNet
