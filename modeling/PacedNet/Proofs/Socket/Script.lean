import PacedNet.Proofs.Running
import PacedNet.Socket.Receive
import PacedNet.Socket.Send

/-!
# Operations that others come between

While an operation is on its way, others do theirs: a transfer sleeps off a grant, and a receive
that has looked at a message has not taken it yet. A script is an operation cut into the steps that
nobody can come between, each of which is one call of the kernel or one look at what sockets share.
A step tells what it did (`Event`), and where the operation goes on.

Done in one piece, a script is the operation it was made of (`Script.alone_script`).
-/

namespace PacedNet

/-- What a step does. -/
inductive Event where
  /-- It looks, or finds out that it cannot go on. -/
  | quiet
  /-- It reads the burst of its quota, which is how much it will ask for at most. -/
  | sized (burst : Nat)
  /-- Its quota grants it bytes. -/
  | granted (bytes : Nat)
  /-- It offers octets to the kernel, which takes some of them or fails. -/
  | sent (d : Descriptor) (octets : List UInt8) (taken : Option Nat)
  /-- It asks the kernel for octets. -/
  | received (d : Descriptor) (room : Nat) (got : Option Incoming)
  /-- It acknowledges what it has received. -/
  | replied
  /-- It takes what should be an acknowledgement, and is something else if `stray` says so. -/
  | awaited (stray : Option UInt8)

/-- An operation in steps. -/
inductive Script (K α : Type) where
  | ended (answer : Except Failure α)
  | next (act : Machine K → Event × Machine K) (rest : Machine K → Script K α)

namespace Script

variable {K α β : Type}

def bind : Script K α → (α → Script K β) → Script K β
  | ended (.ok a), f => f a
  | ended (.error e), _ => ended (.error e)
  | next act rest, f => next act fun m => (rest m).bind f

instance : Monad (Script K) where
  pure a := ended (.ok a)
  bind := bind

def fail (stage : Stage) (cause : Cause) : Script K α := ended (.error (.socket ⟨stage, cause⟩))

def ofExcept (r : Except SocketError α) : Script K α := ended (r.mapError .socket)

/-- All of an operation in one step. -/
def step (event : Machine K → Except Failure α → Event) (act : Act K α) : Script K α :=
  next (fun m => (event m (act.run m).1, (act.run m).2)) fun m => ended (act.run m).1

/-- A script that nobody comes between. -/
def alone : Script K α → Act K α
  | ended answer => fun m => (answer, m)
  | next act rest => fun m => (rest m).alone (act m).2

/-! ## The steps of each operation -/

/-- The quota that an operation draws on. -/
def quotaOf (quota : Option QuotaId) (m : Machine K) : Option Quota := quota.bind (m.quotas[·]?)

/-- How much to ask for: one burst at most. -/
def size (quota : Option QuotaId) (bytes : Nat) : Script K Nat :=
  next
    (fun m => ((quotaOf quota m).elim .quiet fun q => .sized q.burst, m))
    fun m => ended (.ok ((quotaOf quota m).elim bytes fun q => min bytes q.burst))

/-- Asks for bytes that must pass as one. -/
def paceWhole (stage : Stage) (quota : Option QuotaId) (bytes : Nat) : Script K Nat :=
  step
    (fun m r => match quotaOf quota m, r with
      | some _, .ok n => .granted n
      | _, _ => .quiet)
    (Act.pace stage quota bytes Quota.throttleExact)

/-- Asks for up to that many bytes. -/
def pace (stage : Stage) (quota : Option QuotaId) (bytes : Nat) : Script K Nat := do
  paceWhole stage quota (← size quota bytes)

variable [Kernel K]

def checkpoint (link : Link) : Script K Unit :=
  step (fun _ _ => .quiet) (Transfer.checkpoint link)

def send (link : Link) (octets : List UInt8) (flags : Nat) (pass : Option OpenFile) :
    Script K Nat :=
  step (fun _ r => .sent link.descriptor octets r.toOption)
    (Transfer.send link octets flags pass)

def receive (d : Descriptor) (room : Nat) : Script K Incoming :=
  step (fun _ r => .received d room r.toOption) (Socket.receiveCall d room)

/-- The octet that stood where a reply was awaited. -/
def strayOf : Except Failure Unit → Option UInt8
  | .error (.socket ⟨_, .wrongReply octet⟩) => some octet
  | _ => none

def awaitReply (link : Link) : Script K Unit :=
  step (fun _ r => .awaited (strayOf r)) (Transfer.awaitReply link)

def reply (s : Socket) (link : Link) : Script K Unit :=
  step (fun _ _ => .replied) (s.reply link)

def round (link : Link) (flags : Nat) (pass : Option OpenFile) (rest : List UInt8) :
    Script K Nat := do
  checkpoint link
  let grant ← pace .write link.quota rest.length
  send link (rest.take grant) flags pass

def stream (link : Link) (flags : Nat) :
    Option OpenFile → SendReport → List UInt8 → Script K SendReport
  | _, report, [] => return report
  | pass, report, b :: tail => do
    let sent ← round link flags pass (b :: tail)
    let report := { report with wireBytes := report.wireBytes + sent, chunks := report.chunks + 1 }
    if sent = 0 then return report
    else stream link flags none report ((b :: tail).drop sent)
termination_by _ _ rest => rest.length
decreasing_by
  simp only [List.length_drop, List.length_cons]
  omega

def datagram (link : Link) (parcel : Parcel) : Script K SendReport := do
  checkpoint link
  let _ ← paceWhole .write link.quota parcel.wire.length
  let sent ← send link parcel.wire parcel.flags parcel.pass
  return ⟨parcel.payloadBytes, sent, 1⟩

def transfer (link : Link) (parcel : Parcel) (acknowledge : Bool) : Script K SendReport := do
  let report ← match link.kind with
    | .datagram => datagram link parcel
    | .stream =>
      stream link parcel.flags parcel.pass ⟨parcel.payloadBytes, 0, 0⟩ (Transfer.streamWire parcel)
  if acknowledge then awaitReply link
  return report

def readChunk (s : Socket) (link : Link) : Script K Incoming := do
  let room ← pace .read link.quota s.readChunk
  receive link.descriptor room

def look (link : Link) : Script K Bool := step (fun _ _ => .quiet) (Socket.isReady link)

def drain (s : Socket) (link : Link) : Nat → List UInt8 → Script K (List UInt8)
  | 0, read => return read.reverse
  | bound + 1, read => do
    if ← look link then
      let chunk ← readChunk s link
      if chunk.octets.isEmpty then return read.reverse
      else drain s link bound (chunk.octets.reverse ++ read)
    else return read.reverse

/-- How many chunks may come: as many as wait now, and more that come meanwhile. -/
def bound (link : Link) (more : Nat) : Script K Nat := do
  let waiting ← step (fun _ _ => .quiet) (Act.ask (Kernel.waiting link.descriptor))
  return waiting + 1 + more

def drainAll (s : Socket) (link : Link) (more : Nat) (data : List UInt8) :
    Script K (List UInt8) := do
  drain s link (← bound link more) data.reverse

def readUntilEnd (s : Socket) (link : Link) : Nat → List UInt8 → Script K (List UInt8)
  | 0, read => return read.reverse
  | bound + 1, read => do
    let chunk ← readChunk s link
    if chunk.octets.isEmpty then return read.reverse
    else readUntilEnd s link bound (chunk.octets.reverse ++ read)

def readMessage (link : Link) : Script K Incoming := do
  let length ← step (fun _ _ => .quiet)
    (Act.call (Kernel.nextLength link.descriptor) fun e => ⟨.read, .system e⟩)
  let _ ← paceWhole .read link.quota length
  let message ← receive link.descriptor length
  if length < message.length then fail .read (.truncated message.length)
  else return message

def receiveData (s : Socket) (more : Nat) : Script K (List UInt8) := do
  let link ← ofExcept s.reader
  let data ← match s.kind with
    | .datagram => do pure (← readMessage link).octets
    | .stream => do
      let first ← readChunk s link
      if first.octets.isEmpty then fail .read .peerClosed
      else drainAll s link more first.octets
  reply s link
  return data

def receivePassed (s : Socket) (more : Nat) : Script K (List UInt8 × OpenFile) := do
  let link ← ofExcept s.reader
  let (data, file) ← match s.kind with
    | .datagram => do
      let message ← readMessage link
      match message.passed with
      | some file => pure (message.octets, file)
      | none => fail .read .missingDescriptor
    | .stream => do
      let first ← readChunk s link
      match first.passed with
      | some file => do pure (← drainAll s link more first.octets, file)
      | none => fail .read (if first.octets.isEmpty then .peerClosed else .missingDescriptor)
  reply s link
  return (data, file)

def receiveToEnd (s : Socket) (more : Nat) : Script K (List UInt8) := do
  let link ← ofExcept s.reader
  match s.kind with
  | .datagram => return (← readMessage link).octets
  | .stream => readUntilEnd s link (← bound link more) []

end Script

/-- What moves octets. -/
inductive Operation where
  | send (p : Payload) (options : SendOptions)
  /-- The transfer of an asynchronous send, which has its own link. -/
  | carry (job : Job)
  | receiveData
  | receiveRecords
  | receivePassed
  | receiveToEnd

/-- What an operation answers. -/
inductive Outcome where
  | report (r : SendReport)
  | data (octets : List UInt8)
  | records (parts : List (List UInt8))
  | passed (octets : List UInt8) (file : OpenFile)
deriving DecidableEq

namespace Operation

variable {K : Type} [Kernel K]

/-- An operation of a socket, in one piece. -/
def act (s : Socket) : Operation → Act K Outcome
  | send p options => do return .report (← s.send p options)
  | carry job => do return .report (← Transfer.run job.link job.parcel false)
  | receiveData => do return .data (← s.receiveData)
  | receiveRecords => do return .records (← s.receiveRecords)
  | receivePassed => do
    let (octets, file) ← s.receivePassed
    return .passed octets file
  | receiveToEnd => do return .data (← s.receiveToEnd)

/-- An operation of a socket in steps. A receive from a stream goes on while there is something, so
how long it may go on is told with it; nothing depends on that. -/
def script (s : Socket) (more : Nat) : Operation → Script K Outcome
  | send p options => do
    let link ← Script.ofExcept s.writer
    return .report (← Script.transfer link (p.parcel options) s.acknowledge)
  | carry job => do return .report (← Script.transfer job.link job.parcel false)
  | receiveData => do return .data (← Script.receiveData s more)
  | receiveRecords => do return .records (splitRecords (← Script.receiveData s more))
  | receivePassed => do
    let (octets, file) ← Script.receivePassed s more
    return .passed octets file
  | receiveToEnd => do return .data (← Script.receiveToEnd s more)

end Operation

namespace Script

variable {K α β : Type}

/-! ## In one piece -/

@[simp] theorem alone_pure (a : α) : (pure a : Script K α).alone = pure a := rfl

@[simp] theorem alone_fail (stage : Stage) (cause : Cause) :
    (fail stage cause : Script K α).alone = Act.fail stage cause := rfl

@[simp] theorem alone_ofExcept (r : Except SocketError α) :
    (ofExcept r : Script K α).alone = Act.ofExcept r := by
  cases r <;> rfl

@[simp] theorem alone_step (event : Machine K → Except Failure α → Event) (act : Act K α) :
    (step event act).alone = act := rfl

@[simp] theorem alone_bind (s : Script K α) (f : α → Script K β) :
    (s >>= f).alone = s.alone >>= fun a => (f a).alone := by
  induction s with
  | ended answer =>
      cases answer <;> rfl
  | next act rest ih =>
      funext m
      exact congrFun (ih m) (act m).2

theorem alone_pace (stage : Stage) (quota : Option QuotaId) (bytes : Nat) :
    (pace stage quota bytes : Script K Nat).alone
      = Act.pace stage quota bytes Quota.throttle := by
  funext m
  show (Act.pace stage quota ((quotaOf quota m).elim bytes fun q => min bytes q.burst)
    Quota.throttleExact : Act K Nat) m = _
  unfold Act.pace quotaOf
  cases quota with
  | none => rfl
  | some id =>
      show (_ : Act K Nat).run m = (_ : Act K Nat).run m
      rw [run_get_bind, run_get_bind]
      dsimp only [Option.bind_some]
      cases m.quotas[id]? <;> rfl

theorem alone_ite {c : Prop} [Decidable c] (s t : Script K α) :
    (if c then s else t).alone = if c then s.alone else t.alone := by
  split <;> rfl

variable [Kernel K]

theorem alone_round (link : Link) (flags : Nat) (pass : Option OpenFile) (rest : List UInt8) :
    (round link flags pass rest : Script K Nat).alone = Transfer.round link flags pass rest := by
  unfold round Transfer.round
  rw [alone_bind]
  congr 1
  funext _
  rw [alone_bind, alone_pace]
  rfl

theorem alone_stream (link : Link) (flags : Nat) (pass : Option OpenFile) (report : SendReport)
    (rest : List UInt8) :
    (stream link flags pass report rest : Script K SendReport).alone
      = Transfer.stream link flags pass report rest := by
  -- each round leaves less to send
  induction hn : rest.length using Nat.strongRecOn generalizing pass report rest with
  | ind n ih =>
      subst hn
      cases rest with
      | nil =>
          rw [stream, Transfer.stream]
          rfl
      | cons b tail =>
          rw [stream, Transfer.stream, alone_bind, alone_round]
          congr 1
          funext sent
          rw [alone_ite]
          by_cases hzero : sent = 0
          · rw [if_pos hzero, if_pos hzero]
            rfl
          · have hless : ((b :: tail).drop sent).length < (b :: tail).length := by
              rw [List.length_drop, List.length_cons]
              omega
            rw [if_neg hzero, if_neg hzero]
            exact ih _ hless _ _ _ rfl

theorem alone_datagram (link : Link) (parcel : Parcel) :
    (datagram link parcel : Script K SendReport).alone = Transfer.datagram link parcel := by
  unfold datagram Transfer.datagram
  simp only [alone_bind]
  rfl

theorem alone_transfer (link : Link) (parcel : Parcel) (acknowledge : Bool) :
    (transfer link parcel acknowledge : Script K SendReport).alone
      = Transfer.run link parcel acknowledge := by
  unfold transfer Transfer.run
  cases link.kind with
  | stream =>
      simp only [alone_bind, alone_ite, alone_stream]
      rfl
  | datagram =>
      simp only [alone_bind, alone_ite, alone_datagram]
      rfl

theorem alone_readChunk (s : Socket) (link : Link) :
    (readChunk s link : Script K Incoming).alone = s.readChunkOf link := by
  unfold readChunk Socket.readChunkOf
  rw [alone_bind, alone_pace]
  rfl

theorem alone_drain (s : Socket) (link : Link) (bound : Nat) (read : List UInt8) :
    (drain s link bound read : Script K (List UInt8)).alone = s.drain link bound read := by
  induction bound generalizing read with
  | zero => rfl
  | succ bound ih =>
      unfold drain Socket.drain
      rw [alone_bind]
      refine congrArg _ (funext fun ready => ?_)
      rw [alone_ite, alone_bind, alone_readChunk]
      simp only [alone_ite, ih, alone_pure]

theorem alone_bound (link : Link) :
    (bound link 0 : Script K Nat).alone
      = do return (← Act.ask (Kernel.waiting link.descriptor)) + 1 := rfl

theorem alone_drainAll (s : Socket) (link : Link) (data : List UInt8) :
    (drainAll s link 0 data : Script K (List UInt8)).alone = s.drainAll link data := by
  unfold drainAll Socket.drainAll
  rw [alone_bind, alone_bound]
  simp only [alone_drain]
  rfl

theorem alone_readUntilEnd (s : Socket) (link : Link) (bound : Nat) (read : List UInt8) :
    (readUntilEnd s link bound read : Script K (List UInt8)).alone
      = s.readUntilEnd link bound read := by
  induction bound generalizing read with
  | zero => rfl
  | succ bound ih =>
      unfold readUntilEnd Socket.readUntilEnd
      rw [alone_bind, alone_readChunk]
      simp only [alone_ite, ih, alone_pure]

theorem alone_readMessage (link : Link) :
    (readMessage link : Script K Incoming).alone = Socket.readMessage link := by
  unfold readMessage Socket.readMessage
  simp only [alone_bind, alone_ite, alone_pure, alone_fail]
  rfl

theorem alone_receiveData (s : Socket) :
    (receiveData s 0 : Script K (List UInt8)).alone = s.receiveData := by
  unfold receiveData Socket.receiveData
  rw [alone_bind, alone_ofExcept]
  refine congrArg _ (funext fun link => ?_)
  cases s.kind with
  | stream =>
      simp only [alone_bind, alone_ite, alone_readChunk, alone_drainAll, alone_fail]
      rfl
  | datagram =>
      simp only [alone_bind, alone_readMessage]
      rfl

theorem alone_receivePassed (s : Socket) :
    (receivePassed s 0 : Script K (List UInt8 × OpenFile)).alone = s.receivePassed := by
  unfold receivePassed Socket.receivePassed
  rw [alone_bind, alone_ofExcept]
  refine congrArg _ (funext fun link => ?_)
  cases s.kind with
  | stream =>
      dsimp only
      rw [alone_bind, alone_readChunk]
      refine congrArg _ (funext fun first => ?_)
      cases first.passed with
      | none => rfl
      | some file =>
          simp only [alone_bind, alone_drainAll]
          rfl
  | datagram =>
      dsimp only
      rw [alone_bind, alone_readMessage]
      refine congrArg _ (funext fun message => ?_)
      cases message.passed with
      | none => rfl
      | some file =>
          simp only [alone_bind]
          rfl

theorem alone_receiveToEnd (s : Socket) :
    (receiveToEnd s 0 : Script K (List UInt8)).alone = s.receiveToEnd := by
  unfold receiveToEnd Socket.receiveToEnd
  rw [alone_bind, alone_ofExcept]
  refine congrArg _ (funext fun link => ?_)
  cases s.kind with
  | stream =>
      rw [alone_bind, alone_bound]
      simp only [alone_readUntilEnd]
      rfl
  | datagram =>
      rw [alone_bind, alone_readMessage]
      rfl

/-- **An operation that nobody comes between** is its script, step after step. -/
theorem alone_script (s : Socket) (op : Operation) :
    (op.script s 0 : Script K Outcome).alone = op.act s := by
  cases op with
  | send p options =>
      show (_ >>= fun link => _ : Script K Outcome).alone = _
      unfold Operation.act Socket.send
      simp only [alone_bind, alone_ofExcept, alone_transfer, bind_assoc]
      rfl
  | carry job =>
      unfold Operation.script Operation.act
      rw [alone_bind, alone_transfer]
      rfl
  | receiveData =>
      unfold Operation.script Operation.act
      rw [alone_bind, alone_receiveData]
      rfl
  | receiveRecords =>
      unfold Operation.script Operation.act Socket.receiveRecords
      rw [alone_bind, alone_receiveData, bind_assoc]
      rfl
  | receivePassed =>
      unfold Operation.script Operation.act
      rw [alone_bind, alone_receivePassed]
      rfl
  | receiveToEnd =>
      unfold Operation.script Operation.act
      rw [alone_bind, alone_receiveToEnd]
      rfl

end Script

end PacedNet
