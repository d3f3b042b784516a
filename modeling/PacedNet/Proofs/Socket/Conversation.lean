import PacedNet.Proofs.Host.Streaming
import PacedNet.Proofs.Socket.Delivery
import PacedNet.Proofs.Socket.Jobs
import PacedNet.Proofs.Socket.Receiving
import Mathlib.Data.List.Basic
import Mathlib.Logic.Relation

/-!
# Conversations over a stream

One end of a stream sends, at once or by jobs that run later and in any order; the other
end receives. Nothing is lost, doubled or put in another order on the way: what was
received and what still lies in the queue are, together, what the transfers sent, in the
order they ran (`conserves`).

The invariant (`Balanced`) holds of each step whatever the kernel takes and delivers of
a chunk and whatever the quotas grant, for which it keeps track of what each transfer got
out.
-/

namespace PacedNet

/-- A transfer that ran. -/
structure Transferred where
  payload : Payload
  /-- The octets that the kernel took. -/
  taken : List UInt8
  succeeded : Bool

/-- What a transfer sent: all of its payload, or what it got out before it failed. -/
def Transferred.sent (t : Transferred) : List UInt8 :=
  if t.succeeded then t.payload.encode else t.taken

/-- A sending and a receiving end. -/
structure Conversation (K : Type) where
  machine : Machine (Traced K)
  sender : Socket
  receiver : Socket
  /-- Sends that were started and have not run. -/
  jobs : List (Payload × Job)
  /-- The transfers that ran, in their order. -/
  transfers : List Transferred
  /-- All octets that receives returned. -/
  received : List UInt8

namespace Conversation

variable {K : Type} {a b : Descriptor} {up : K → Prop} {queue : K → List UInt8}
  {before : List UInt8} {c c' : Conversation K}

/-- Notes what a transfer came to, which left the machine as it is now. -/
def note (c : Conversation K) (p : Payload) (answer : Except Failure SendReport)
    (m : Machine (Traced K)) : Conversation K :=
  { c with
    machine := m
    transfers := c.transfers
      ++ [⟨p, takenOf (m.kernel.sends.drop c.machine.kernel.sends.length), answer.isOk⟩] }

/-- What lies on the way to the receiver. -/
def onTheWay (c : Conversation K) (queue : K → List UInt8) : List UInt8 :=
  queue c.machine.kernel.kernel

/-- A job sends a payload on the sender's link. -/
structure Sends (a : Descriptor) (quota : Option QuotaId) (p : Payload) (job : Job) : Prop where
  descriptor : job.link.descriptor = a
  kind : job.link.kind = .stream
  quota : job.link.quota = quota
  parcel : ∃ flags, job.parcel = p.parcel ⟨flags, none⟩

theorem Sends.pass_eq {a : Descriptor} {quota : Option QuotaId} {p : Payload} {job : Job}
    (h : Sends a quota p job) : job.parcel.pass = none := by
  obtain ⟨flags, hparcel⟩ := h.parcel
  rw [hparcel]
  rfl

/-- The two ends of a stream that is up, where nobody waits for acknowledgements. -/
structure Joins (a b : Descriptor) (up : K → Prop) (c : Conversation K) : Prop where
  up : up c.machine.kernel.kernel
  sender : c.sender.descriptor = some a ∧ c.sender.kind = .stream ∧ c.sender.acknowledge = false
  receiver : c.receiver.descriptor = some b ∧ c.receiver.kind = .stream
    ∧ c.receiver.acknowledge = false ∧ 0 < c.receiver.readChunk
  paced : c.machine.Flows c.sender.quota ∧ c.machine.Flows c.receiver.quota
  jobs : ∀ p job, (p, job) ∈ c.jobs → Sends a c.sender.quota p job
  /-- The sender holds its descriptor, and so does each job. -/
  held : c.jobs.length < c.machine.held.count a

/-- What went in came out or lies on the way. -/
structure Balanced (queue : K → List UInt8) (before : List UInt8) (c : Conversation K) : Prop where
  fits : ∀ t ∈ c.transfers, t.taken <+: t.payload.encode
    ∧ (t.succeeded = true → t.taken = t.payload.encode)
  books : c.received ++ c.onTheWay queue = before ++ c.transfers.flatMap Transferred.taken

/-- What transfers got out is what they sent. -/
theorem Balanced.sent_eq (h : Balanced queue before c) :
    c.transfers.flatMap Transferred.taken = c.transfers.flatMap Transferred.sent := by
  refine List.flatMap_congr fun t ht => ?_
  unfold Transferred.sent
  split
  · rename_i hok
    exact (h.fits t ht).2 hok
  · rfl

/-- The ends stay joined while the machine keeps what they need. -/
theorem Joins.update (h : Joins a b up c) {m : Machine (Traced K)} {jobs : List (Payload × Job)}
    (hup : up m.kernel.kernel) (hflows : ∀ quota, c.machine.Flows quota → m.Flows quota)
    (hjobs : ∀ x ∈ jobs, x ∈ c.jobs) (hheld : jobs.length < m.held.count a)
    (transfers : List Transferred) (received : List UInt8) :
    Joins a b up ⟨m, c.sender, c.receiver, jobs, transfers, received⟩ where
  up := hup
  sender := h.sender
  receiver := h.receiver
  paced := h.paced.imp (hflows _) (hflows _)
  jobs p job hjob := h.jobs p job (hjobs _ hjob)
  held := hheld

/-- Slots and held descriptors are no matter of the kernel. -/
theorem kernel_of_keeps (queue : K → List UInt8) (hj : Joins a b up c) {m : Machine (Traced K)}
    {held : List Descriptor} (h : c.machine.Keeps m held) :
    up m.kernel.kernel ∧ queue m.kernel.kernel = c.onTheWay queue := by
  rw [h.kernel]
  exact ⟨hj.up, rfl⟩

/-- A sender that may send has a link. -/
theorem writer_cases (hj : Joins a b up c) : (∃ e, c.sender.writer = .error e)
    ∨ c.sender.writer = .ok ⟨a, c.sender.quota, c.sender.number, .stream⟩ := by
  obtain ⟨hd, hkind, -⟩ := hj.sender
  unfold Socket.writer Socket.link
  rw [hd, hkind]
  dsimp only
  split
  · exact Or.inr rfl
  · exact Or.inl ⟨_, rfl⟩

/-- Without one job there is one holder less. -/
theorem held_erase {i : Nat} {p : Payload} {job : Job} (hj : Joins a b up c)
    (hi : c.jobs[i]? = some (p, job)) :
    1 < c.machine.held.count a
      ∧ (c.jobs.eraseIdx i).length < (c.machine.held.erase a).count a := by
  obtain ⟨hlt, -⟩ := List.getElem?_eq_some_iff.mp hi
  have hheld := hj.held
  rw [List.length_eraseIdx_of_lt hlt, List.count_erase_self]
  omega

/-- Nothing is received or sent, and nothing lost. -/
theorem Balanced.same (h : Balanced queue before c)
    (hqueue : c'.onTheWay queue = c.onTheWay queue) (htransfers : c'.transfers = c.transfers)
    (hreceived : c'.received = c.received) : Balanced queue before c' where
  fits := htransfers ▸ h.fits
  books := by rw [hqueue, htransfers, hreceived, h.books]

/-- What a transfer got out goes on the way and into the books. -/
theorem Balanced.note {taken : List UInt8} (h : Balanced queue before c) {p : Payload}
    {answer : Except Failure SendReport} {m : Machine (Traced K)}
    (htaken : takenOf (m.kernel.sends.drop c.machine.kernel.sends.length) = taken)
    (hqueue : queue m.kernel.kernel = c.onTheWay queue ++ taken) (hfits : taken <+: p.encode)
    (hall : answer.isOk = true → taken = p.encode) : Balanced queue before (c.note p answer m) := by
  subst htaken
  refine ⟨fun t ht => ?_, ?_⟩
  · rcases List.mem_append.mp ht with ht | ht
    · exact h.fits t ht
    · obtain rfl := List.mem_singleton.mp ht
      exact ⟨hfits, hall⟩
  · show c.received ++ queue m.kernel.kernel = _
    rw [hqueue, ← List.append_assoc, h.books]
    simp [Conversation.note]

/-- What a receive returns was what lay on the way. -/
theorem preserves_receive (hj : Joins a b up c) (hb : Balanced queue before c)
    {data : List UInt8} {machine : Machine (Traced K)}
    (h : c.machine.Empties (fun t => up t.kernel) (fun t => queue t.kernel) [] data machine) :
    Joins a b up { c with machine, received := c.received ++ data }
      ∧ Balanced queue before { c with machine, received := c.received ++ data } := by
  refine ⟨hj.update h.up (fun _ => h.moves.flows) (fun _ hx => hx) (h.moves.held ▸ hj.held) _ _,
    hb.fits, ?_⟩
  show (c.received ++ data) ++ queue machine.kernel.kernel = _
  rw [h.data, h.rest, List.append_nil, List.nil_append]
  exact hb.books

/-! ## What may happen -/

variable [Kernel K]

/-- The sender sends a payload. -/
def send (c : Conversation K) (p : Payload) (flags : Nat) : Conversation K :=
  let (answer, m) := (c.sender.send p ⟨flags, none⟩).run c.machine
  c.note p answer m

/-- The sender starts to send a payload. -/
def dispatch (c : Conversation K) (p : Payload) (flags : Nat) (callback : Bool) :
    Conversation K :=
  let (started, machine) := c.sender.dispatch p ⟨flags, none⟩ callback c.machine
  { c with machine, sender := started.socket, jobs := c.jobs ++ started.job.toList.map (p, ·) }

/-- A job runs. -/
def runJob (c : Conversation K) (i : Nat) (p : Payload) (job : Job) : Conversation K :=
  let (answer, _) := (Transfer.run job.link job.parcel false).run c.machine
  { c.note p answer (job.run c.machine).2 with jobs := c.jobs.eraseIdx i }

/-- A job is dropped. -/
def dropJob (c : Conversation K) (i : Nat) (job : Job) : Conversation K :=
  { c with machine := job.drop c.machine, jobs := c.jobs.eraseIdx i }

/-- What may happen. A receive that fails ends the conversation. -/
inductive Step : Conversation K → Conversation K → Prop where
  | send (c : Conversation K) (p : Payload) (flags : Nat) : Step c (c.send p flags)
  | dispatch (c : Conversation K) (p : Payload) (flags : Nat) (callback : Bool) :
      Step c (c.dispatch p flags callback)
  | runJob (c : Conversation K) {i : Nat} {p : Payload} {job : Job} :
      c.jobs[i]? = some (p, job) → Step c (c.runJob i p job)
  | dropJob (c : Conversation K) {i : Nat} {p : Payload} {job : Job} :
      c.jobs[i]? = some (p, job) → Step c (c.dropJob i job)
  /-- The sender shuts its stream, so that the receiver may come to its end. -/
  | shutdown (c : Conversation K) {how : Direction} {sender : Socket} {machine : Machine (Traced K)} :
      (c.sender.shutdown how).run c.machine = (.ok sender, machine) →
      Step c { c with machine, sender }
  | receiveData (c : Conversation K) {data : List UInt8} {machine : Machine (Traced K)} :
      c.receiver.receiveData.run c.machine = (.ok data, machine) →
      Step c { c with machine, received := c.received ++ data }
  | receiveToEnd (c : Conversation K) {data : List UInt8} {machine : Machine (Traced K)} :
      c.receiver.receiveToEnd.run c.machine = (.ok data, machine) →
      Step c { c with machine, received := c.received ++ data }
  | wait (c : Conversation K) (d : Duration) :
      Step c { c with machine := { c.machine with now := c.machine.now + d } }

/-- A state that a conversation may come to. -/
abbrev Reaches (c c' : Conversation K) : Prop := Relation.ReflTransGen Step c c'

/-! ## One step -/

/-- A run of a transfer of the sender: what was taken of its calls lies on the way. -/
theorem run_transfer (hK : Kernel.Fifo a b up queue) (hT : Kernel.TakesSome K) {link : Link}
    {p : Payload} {flags : Nat} {m m' : Machine (Traced K)} {answer : Except Failure SendReport}
    (hd : link.descriptor = a) (hkind : link.kind = .stream) (hflows : m.Flows link.quota)
    (hup : up m.kernel.kernel)
    (h : (Transfer.run link (p.parcel ⟨flags, none⟩) false).run m = (answer, m')) :
    m.Moves m' ∧ up m'.kernel.kernel ∧ ∃ taken,
      takenOf (m'.kernel.sends.drop m.kernel.sends.length) = taken
      ∧ queue m'.kernel.kernel = queue m.kernel.kernel ++ taken
      ∧ taken <+: p.encode ∧ (answer.isOk = true → taken = p.encode) := by
  obtain ⟨hmoves, calls, hmade, hcarries, hok⟩ :=
    Transfer.run_spec (Traced.takesSome hT) hkind hflows h
  have hwire : Transfer.streamWire (p.parcel ⟨flags, none⟩) = p.encode := by
    rw [streamWire_parcel]
    exact if_neg (by simp)
  rw [hwire, hd] at hcarries
  rw [hwire] at hok
  have hcalls : ∀ c ∈ calls, c.descriptor = a ∧ c.pass = none := by
    intro c hc
    obtain ⟨i, hi⟩ := List.mem_iff_getElem?.mp hc
    have hpass := hcarries.rides i c hi
    exact ⟨(hcarries.made c hc).1, by rw [hpass]; exact ite_self _⟩
  obtain ⟨hup', hqueue⟩ := hK.traced.made hmade hcalls hup
  refine ⟨hmoves, hup', _, rfl, ?_⟩
  rw [Traced.sends_of_made hmade, List.drop_left]
  refine ⟨hqueue, hcarries.fit, fun hans => ?_⟩
  cases answer with
  | ok report => exact (hok report rfl).1
  | error e => exact absurd hans (by simp [Except.isOk, Except.toBool])

theorem preserves_send (hK : Kernel.Fifo a b up queue) (hT : Kernel.TakesSome K)
    (hj : Joins a b up c) (hb : Balanced queue before c) (p : Payload) (flags : Nat) :
    Joins a b up (c.send p flags) ∧ Balanced queue before (c.send p flags) := by
  cases hrun : (c.sender.send p ⟨flags, none⟩).run c.machine with
  | mk answer m =>
      have hsend : c.send p flags = c.note p answer m := by
        unfold Conversation.send
        rw [hrun]
      rw [hsend]
      rcases writer_cases hj with ⟨e, hwriter⟩ | hwriter
      · -- a sender that may not send leaves all as it is
        unfold Socket.send at hrun
        rw [hwriter] at hrun
        injection hrun with hanswer hm
        subst hanswer hm
        exact ⟨hj.update hj.up (fun _ hf => hf) (fun _ hx => hx) hj.held _ _,
          hb.note rfl (by simp [takenOf, onTheWay]) (by simp [takenOf])
            (by simp [Except.isOk, Except.toBool])⟩
      · rw [Socket.run_send hwriter, hj.sender.2.2] at hrun
        obtain ⟨hmoves, hup, taken, htaken, hqueue, hfits, hall⟩ :=
          run_transfer hK hT rfl rfl hj.paced.1 hj.up hrun
        exact ⟨hj.update hup (fun _ => hmoves.flows) (fun _ hx => hx) (hmoves.held ▸ hj.held) _ _,
          hb.note htaken hqueue hfits hall⟩

theorem preserves_dispatch (hj : Joins a b up c) (hb : Balanced queue before c) (p : Payload)
    (flags : Nat) (callback : Bool) :
    Joins a b up (c.dispatch p flags callback)
      ∧ Balanced queue before (c.dispatch p flags callback) := by
  cases hrun : c.sender.dispatch p ⟨flags, none⟩ callback c.machine with
  | mk started m =>
      have hdispatch : c.dispatch p flags callback = { c with
          machine := m, sender := started.socket
          jobs := c.jobs ++ started.job.toList.map (p, ·) } := by
        unfold Conversation.dispatch
        rw [hrun]
      rw [hdispatch]
      rcases c.sender.dispatch_cases p flags callback hrun with
        ⟨hjob, hsocket, hkeeps⟩ | ⟨link, job, hwriter, hjob, hlink, hparcel, hsocket, hkeeps⟩
      · -- no job: the send failed at once
        obtain ⟨hup, hqueue⟩ := kernel_of_keeps queue hj hkeeps
        rw [hjob, hsocket, Option.toList_none, List.map_nil, List.append_nil]
        exact ⟨hj.update hup (fun _ => hkeeps.flows) (fun _ hx => hx) (hkeeps.held ▸ hj.held) _ _,
          hb.same hqueue rfl rfl⟩
      · obtain ⟨hup, hqueue⟩ := kernel_of_keeps queue hj hkeeps
        have hlinked : link = ⟨a, c.sender.quota, c.sender.number, .stream⟩ := by
          rcases writer_cases hj with ⟨e, he⟩ | hok
          · rw [he] at hwriter
            exact absurd hwriter (by simp)
          · rw [hok] at hwriter
            injection hwriter with h
            exact h.symm
        subst hlinked
        rw [hjob, hsocket, Option.toList_some, List.map_singleton]
        refine ⟨⟨hup, hj.sender, hj.receiver, hj.paced.imp hkeeps.flows hkeeps.flows, ?_, ?_⟩,
          hb.same hqueue rfl rfl⟩
        · intro q other hother
          rcases List.mem_append.mp hother with hold | hnew
          · exact hj.jobs q other hold
          · obtain ⟨rfl, rfl⟩ : q = p ∧ other = job := by simpa using hnew
            exact ⟨by rw [hlink], by rw [hlink], by rw [hlink], flags, hparcel⟩
        · -- one job more, and one holder more
          show (c.jobs ++ [(p, job)]).length < m.held.count a
          rw [hkeeps.held, List.length_append, List.count_cons_self]
          exact Nat.succ_lt_succ hj.held

theorem preserves_runJob (hK : Kernel.Fifo a b up queue) (hT : Kernel.TakesSome K)
    (hj : Joins a b up c) (hb : Balanced queue before c) {i : Nat} {p : Payload} {job : Job}
    (hi : c.jobs[i]? = some (p, job)) :
    Joins a b up (c.runJob i p job) ∧ Balanced queue before (c.runJob i p job) := by
  have hsends := hj.jobs p job (List.mem_of_getElem? hi)
  have hpass := hsends.pass_eq
  obtain ⟨hd, hkind, hquota, flags, hparcel⟩ := hsends
  obtain ⟨hmore, hless⟩ := held_erase hj hi
  cases hrun : (Transfer.run job.link job.parcel false).run c.machine with
  | mk answer m =>
      have hrunJob : c.runJob i p job
          = { c.note p answer (job.run c.machine).2 with jobs := c.jobs.eraseIdx i } := by
        unfold Conversation.runJob
        rw [hrun]
      rw [hrunJob]
      -- the slot and the descriptor come after the transfer, and are no matter of the kernel
      have htransfer := hrun
      rw [hparcel] at htransfer
      obtain ⟨hmoves, hup, taken, htaken, hqueue, hfits, hall⟩ :=
        run_transfer hK hT hd hkind (hquota ▸ hj.paced.1) hj.up htransfer
      have hkeeps := job.keeps_run hpass hrun (by rwa [hmoves.held, hd])
      rw [hmoves.held, hd] at hkeeps
      rw [← hkeeps.kernel] at hup htaken hqueue
      have hbooks := hb.note htaken hqueue hfits hall
      exact ⟨hj.update hup (fun _ hf => hkeeps.flows (hmoves.flows hf))
          (fun _ hx => List.mem_of_mem_eraseIdx hx) (hkeeps.held ▸ hless) _ _,
        hbooks.same rfl rfl rfl⟩

theorem preserves_dropJob (hj : Joins a b up c) (hb : Balanced queue before c) {i : Nat}
    {p : Payload} {job : Job} (hi : c.jobs[i]? = some (p, job)) :
    Joins a b up (c.dropJob i job) ∧ Balanced queue before (c.dropJob i job) := by
  have hsends := hj.jobs p job (List.mem_of_getElem? hi)
  have hd := hsends.descriptor
  obtain ⟨hmore, hless⟩ := held_erase hj hi
  have hkeeps := Job.keeps_drop hsends.pass_eq (hd.symm ▸ hmore)
  rw [hd] at hkeeps
  obtain ⟨hup, hqueue⟩ := kernel_of_keeps queue hj hkeeps
  exact ⟨hj.update hup (fun _ => hkeeps.flows) (fun _ hx => List.mem_of_mem_eraseIdx hx)
    (hkeeps.held ▸ hless) _ _, hb.same hqueue rfl rfl⟩

theorem preserves_shutdown (hK : Kernel.Fifo a b up queue) (hj : Joins a b up c)
    (hb : Balanced queue before c) {how : Direction} {sender : Socket}
    {machine : Machine (Traced K)}
    (h : (c.sender.shutdown how).run c.machine = (.ok sender, machine)) :
    Joins a b up { c with machine, sender } ∧ Balanced queue before { c with machine, sender } := by
  obtain ⟨hmoves, hup, hqueue, rfl⟩ := Socket.run_shutdown hK.traced hj.sender.1 hj.up h
  exact ⟨⟨hup, hj.sender, hj.receiver, hj.paced.imp hmoves.flows hmoves.flows, hj.jobs,
    hmoves.held ▸ hj.held⟩, hb.same hqueue rfl rfl⟩

/-- **Every step keeps the balance.** -/
theorem preserves_step (hK : Kernel.Fifo a b up queue) (hT : Kernel.TakesSome K)
    (hj : Joins a b up c) (hb : Balanced queue before c) (h : Step c c') :
    Joins a b up c' ∧ Balanced queue before c' := by
  obtain ⟨hd, hkind, hack, hchunk⟩ := hj.receiver
  cases h with
  | send p flags => exact preserves_send hK hT hj hb p flags
  | dispatch p flags callback => exact preserves_dispatch hj hb p flags callback
  | runJob hi => exact preserves_runJob hK hT hj hb hi
  | dropJob hi => exact preserves_dropJob hj hb hi
  | shutdown hrun => exact preserves_shutdown hK hj hb hrun
  | receiveData hrun =>
      exact preserves_receive hj hb
        (Socket.run_receiveData hK.traced hd hkind hack hj.paced.2 hchunk hj.up hrun)
  | receiveToEnd hrun =>
      exact preserves_receive hj hb
        (Socket.run_receiveToEnd hK.traced hd hkind hj.paced.2 hchunk hj.up hrun)
  | wait d =>
      exact ⟨hj.update (m := { c.machine with now := c.machine.now + d }) hj.up (fun _ hf => hf)
        (fun _ hx => hx) hj.held _ _, hb.same rfl rfl rfl⟩

theorem preserves_reaches (hK : Kernel.Fifo a b up queue) (hT : Kernel.TakesSome K)
    (hj : Joins a b up c) (hb : Balanced queue before c) (h : Reaches c c') :
    Joins a b up c' ∧ Balanced queue before c' := by
  induction h with
  | refl => exact ⟨hj, hb⟩
  | tail _ hstep ih => exact preserves_step hK hT ih.1 ih.2 hstep

/-- **Octets of a stream are conserved.** Whatever happens between two joined ends, what was
received and what still lies on the way are, together and in order, what lay there before and what
the transfers sent; a transfer that failed sent a beginning of its payload. A receive of data
returns all that lies on the way and leaves nothing. -/
theorem conserves (hK : Kernel.Fifo a b up queue) (hT : Kernel.TakesSome K) (hj : Joins a b up c)
    (htransfers : c.transfers = []) (hreceived : c.received = []) (h : Reaches c c') :
    c'.received ++ c'.onTheWay queue = c.onTheWay queue ++ c'.transfers.flatMap Transferred.sent
      ∧ (∀ t ∈ c'.transfers, t.sent <+: t.payload.encode)
      ∧ ∀ data m, c'.receiver.receiveData.run c'.machine = (.ok data, m) →
          data = c'.onTheWay queue ∧ queue m.kernel.kernel = [] := by
  have hb : Balanced queue (c.onTheWay queue) c := by
    refine ⟨by simp [htransfers], ?_⟩
    rw [htransfers, hreceived, List.flatMap_nil, List.append_nil, List.nil_append]
  obtain ⟨hj', hb'⟩ := preserves_reaches hK hT hj hb h
  refine ⟨hb'.sent_eq ▸ hb'.books, fun t ht => ?_, fun data m hrun => ?_⟩
  · unfold Transferred.sent
    split
    · exact List.prefix_refl _
    · exact (hb'.fits t ht).1
  · obtain ⟨hd, hkind, hack, hchunk⟩ := hj'.receiver
    have hall := Socket.run_receiveData hK.traced hd hkind hack hj'.paced.2 hchunk hj'.up hrun
    exact ⟨hall.data, hall.rest⟩

/-- Two ends on a host. What is sent is paced to eight octets a second. -/
def opening : Conversation Host where
  machine :=
    { Machine.start (⟨Host.pair, []⟩ : Traced Host) with
      quotas := [.unlimited 0 (.clamp 8)], held := [0, 1] }
  sender := Socket.endOf 0 (some 0)
  receiver := Socket.endOf 1 none
  jobs := []
  transfers := []
  received := []

theorem joins_opening : Joins 0 1 (Host.Joined 0 1) opening where
  up := Host.joined_pair
  sender := ⟨rfl, rfl, rfl⟩
  receiver := ⟨rfl, rfl, rfl, by decide⟩
  paced := ⟨Machine.flows_eight rfl, fun _ _ hnone => absurd hnone (by simp [opening, Socket.endOf])⟩
  jobs := by simp [opening]
  held := by decide

/-- A send that is left to a job, and one that is not. -/
def exchange : Conversation Host :=
  (opening.dispatch (.records [[1], [2]]) 0 false).send (.single [3]) 0

theorem conserves_exchange :
    exchange.received ++ exchange.onTheWay (Host.inboxOctets 1)
        = opening.onTheWay (Host.inboxOctets 1) ++ exchange.transfers.flatMap Transferred.sent
      ∧ (∀ t ∈ exchange.transfers, t.sent <+: t.payload.encode)
      ∧ ∀ data m, exchange.receiver.receiveData.run exchange.machine = (.ok data, m) →
          data = exchange.onTheWay (Host.inboxOctets 1) ∧ m.kernel.kernel.inboxOctets 1 = [] :=
  conserves (Host.fifo 0 1) Host.takesSome joins_opening rfl rfl
    (.tail (.single (.dispatch _ _ _ _)) (.send _ _ _))

example : (exchange.receiver.receiveData.run exchange.machine).1.toOption = some [3] := by
  decide +kernel

end Conversation

end PacedNet
