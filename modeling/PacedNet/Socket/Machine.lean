import PacedNet.Config.Error
import PacedNet.Socket.Completion
import PacedNet.Socket.Kernel

/-!
# What sockets share

The state around the sockets of one program: the kernel, the clock, the quotas
that sockets draw on, the slots of asynchronous sends with the callbacks made,
and who still holds a descriptor. A descriptor is closed when the last holder
lets go of it.

An operation is an `Act`: it reads and changes this state and either answers or
fails. What it did before it failed stays done.
-/

namespace PacedNet

abbrev QuotaId := Nat

abbrev SlotId := Nat

structure Machine (K : Type) where
  kernel : K
  now : Instant
  quotas : List Quota
  slots : List Slot
  /-- The callbacks made, in order. -/
  calls : List (SlotId × SendResult)
  /-- A descriptor as often as it is held. -/
  held : List Descriptor
  /-- How many sockets there have been; each has a number of its own. -/
  sockets : Nat
  /-- The numbers of the sockets whose sends are cancelled. -/
  cancelled : List Nat

/-- Why an operation ended without an answer. -/
inductive Failure where
  | socket (error : SocketError)
  | config (error : ConfigError)
  | fault (fault : ArithmeticFault)

/-- An operation on the shared state. -/
abbrev Act (K : Type) := ExceptT Failure (StateM (Machine K))

namespace Machine

variable {K : Type}

def start (kernel : K) : Machine K := ⟨kernel, 0, [], [], [], [], 0, []⟩

def addQuota (m : Machine K) (q : Quota) : QuotaId × Machine K :=
  (m.quotas.length, { m with quotas := m.quotas ++ [q] })

def addSlot (m : Machine K) (callback : Bool) : SlotId × Machine K :=
  (m.slots.length, { m with slots := m.slots ++ [.new callback] })

def isResolved (m : Machine K) (id : SlotId) : Bool := (m.slots[id]?.map Slot.done).getD true

/-- Resolves a slot, all three steps at once: the first result stays. The callback returns. -/
def resolve (m : Machine K) (id : SlotId) (r : SendResult) : Machine K :=
  match m.slots[id]? with
  | none => m
  | some slot =>
    match slot.store r with
    | none => m
    | some stored =>
      { m with
        slots := m.slots.set id stored.finish
        calls := if slot.callback then m.calls ++ [(id, r)] else m.calls }

/-- Resolves a slot whose callback unwinds: it holds its result, and is never marked. None if no
callback is called. -/
def unwind (m : Machine K) (id : SlotId) (r : SendResult) : Option (Machine K) := do
  let slot ← m.slots[id]?
  let stored ← slot.store r
  if slot.callback then
    return { m with slots := m.slots.set id stored, calls := m.calls ++ [(id, r)] }
  else none

/-- Resolves slots as cancelled, in order. -/
def cancelAll (m : Machine K) (ids : List SlotId) : Machine K :=
  ids.foldl (fun m id => m.resolve id cancelledSend) m

def hold (m : Machine K) (d : Descriptor) : Machine K := { m with held := d :: m.held }

/-- Lets go of a descriptor; the last to do so closes it. -/
def release [Kernel K] (m : Machine K) (d : Descriptor) : Except Errno Unit × Machine K :=
  let held := m.held.erase d
  if held.contains d then (.ok (), { m with held })
  else
    let (answer, kernel) := Kernel.close d m.kernel
    (answer, { m with held, kernel })

end Machine

namespace Act

variable {K : Type}

def fail {α : Type} (stage : Stage) (cause : Cause) : Act K α := throw (.socket ⟨stage, cause⟩)

/-- A call of the kernel; its error becomes the operation's. -/
def call {α : Type} (f : K → Except Errno α × K) (toError : Errno → SocketError) : Act K α := do
  let m ← get
  let (answer, kernel) := f m.kernel
  set { m with kernel }
  match answer with
  | .ok a => return a
  | .error e => throw (.socket (toError e))

/-- A call of the kernel that answers with anything, an error among it. -/
def attempt {α : Type} (f : K → α × K) : Act K α := do
  let m ← get
  let (answer, kernel) := f m.kernel
  set { m with kernel }
  return answer

/-- A question that changes nothing. -/
def ask {α : Type} (f : K → α) : Act K α := do return f (← get).kernel

/-- A computation that may fail with an error of a socket. -/
def ofExcept {α : Type} (r : Except SocketError α) : Act K α :=
  match r with
  | .ok a => return a
  | .error e => throw (.socket e)

/-- Asks a quota for bytes and waits for them: how many were granted. Without a quota there is no
limit. -/
def pace (stage : Stage) (quota : Option QuotaId) (bytes : Nat)
    (ask : Quota → Instant → Nat → Grant × Quota) : Act K Nat := do
  let m ← get
  match quota.bind fun id => (m.quotas[id]?).map fun q => (id, q) with
  | none => return bytes
  | some (id, q) =>
    let (grant, charged) := ask q m.now bytes
    set { m with quotas := m.quotas.set id charged }
    match grant with
    | .refused => fail stage .quotaExhausted
    | .endless => throw (.fault .endlessWait)
    | .granted bytes wait =>
      modify fun m => { m with now := m.now + wait }
      return bytes

end Act

end PacedNet
