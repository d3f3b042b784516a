import PacedNet.Proofs.Host.Mail
import PacedNet.Proofs.Socket.Delivery
import PacedNet.Proofs.Socket.Frame

/-!
# Correspondence by messages

Two datagram sockets are each other's peers and nobody acknowledges. Any number of sends and
receives are on their way at both ends, those of jobs among them. What was sent and what was there
before is what was received and what is still on its way, message by message; a send that succeeds
has put its payload there as one message, and a receive that succeeds answers one that it took from
the front, all of it (`Traffic.corresponds`).
-/

namespace PacedNet

namespace Operation

/-- It sends a payload, at once or as the job of an asynchronous send. -/
inductive Sends (p : Payload) : Operation → Prop where
  | atOnce (options : SendOptions) : Sends p (send p options)
  | later {job : Job} {options : SendOptions} : job.parcel = p.parcel options →
      Sends p (carry job)

def Receives : Operation → Prop
  | send _ _ => False
  | carry _ => False
  | _ => True

/-- What a receive answers that got the message `data`. -/
def Returns (data : List UInt8) : Operation → Outcome → Prop
  | receiveData, .data octets => octets = data
  | receiveRecords, .records parts => parts = splitRecords data
  | receivePassed, .passed octets _ => octets = data
  | receiveToEnd, .data octets => octets = data
  | _, _ => False

/-- An operation at one of two ends that do not acknowledge. -/
structure OnMail (K : Type) [Kernel K] (a b : Descriptor) (s : Socket) (op : Operation) :
    Prop where
  descriptor : s.descriptor = some a ∨ s.descriptor = some b
  kind : s.kind = .datagram
  acknowledge : s.acknowledge = false
  /-- A job is what an asynchronous send of the socket has left. -/
  job : ∀ job, op = .carry job → ∃ p options callback, ∃ m : Machine K,
    (s.dispatch p options callback m).1.job = some job

end Operation

variable {K : Type} {a b : Descriptor} {up : K → Prop} {queue back : K → List (List UInt8)}
  {s : Socket}

/-- What an operation has come to that sends from `a` or receives at `b`. -/
structure Operation.Delivers (a b : Descriptor) (queue back : K → List (List UInt8)) (s : Socket)
    (op : Operation) (done : List (Moment K)) (answer : Except Failure Outcome) : Prop where
  /-- A send that succeeds has put all of its payload on the way as one message. -/
  sent : ∀ p, op.Sends p → s.descriptor = some a → ∀ outcome, answer = .ok outcome →
    outcome = .report ⟨p.length, p.encode.length, 1⟩ ∧ Adds queue back done p.encode
  /-- A send that fails has put nothing there. -/
  unsent : ∀ p, op.Sends p → s.descriptor = some a → ∀ e, answer = .error e →
    ∀ y ∈ done, y.Still queue back
  /-- A receive that succeeds has taken one message from the front, and answers all of it. -/
  received : op.Receives → s.descriptor = some b → ∀ outcome, answer = .ok outcome →
    ∃ data, op.Returns data outcome ∧ Takes queue back done data
  /-- A receive that its quota refuses has taken nothing. -/
  refused : op.Receives → s.descriptor = some b →
    ∀ stage, answer = .error (.socket ⟨stage, .quotaExhausted⟩) → ∀ y ∈ done, y.Still queue back

/-- What a receive answers is made of the message it has got. -/
theorem Operation.keepsMail_wrap {op : Operation} {α : Type} {script : Script K α}
    {value : α → List UInt8} {answer : α → Outcome} (hreturns : ∀ x, op.Returns (value x) (answer x))
    (h : Script.KeepsMail a b up queue back (Fetches queue back value) [] script) :
    Script.KeepsMail a b up queue back (fun done r => match r with
        | .ok outcome => ∃ data, op.Returns data outcome ∧ Takes queue back done data
        | .error e => ∀ stage, e = .socket ⟨stage, .quotaExhausted⟩ →
            ∀ y ∈ done, y.Still queue back)
      [] (script >>= fun x => pure (answer x)) := by
  refine Script.keeps_bind (h.mono fun done r hr => ?_)
  cases r with
  | error e => exact hr
  | ok x => exact ⟨_, hreturns x, hr⟩

variable [Kernel K]

/-- The job of an asynchronous send has the socket's link, and sends the payload. -/
theorem Socket.dispatch_job {p : Payload} {options : SendOptions} {callback : Bool} {m : Machine K}
    {job : Job} (h : (s.dispatch p options callback m).1.job = some job) :
    s.writer = .ok job.link ∧ Operation.Sends p (.carry job) := by
  unfold dispatch at h
  cases hprepared : s.prepare options (m.addSlot callback).2 with
  | mk prepared m₁ =>
      dsimp only at h
      rw [hprepared] at h
      cases prepared with
      | error e => exact absurd h (by simp)
      | ok ready =>
          obtain ⟨link, pass⟩ := ready
          obtain rfl := Option.some.inj h
          exact ⟨(prepare_frame hprepared).2 link pass rfl, .later rfl⟩

namespace Operation

/-- **A send** from one of the ends. -/
theorem keepsMail_send (hK : Kernel.Mail a b up queue back) {op : Operation} {p : Payload}
    (hmail : OnMail K a b s op) (hd : s.descriptor = some a) (hop : op.Sends p) (more : Nat) :
    Script.KeepsMail a b up queue back (fun done answer => match answer with
        | .ok outcome => outcome = .report ⟨p.length, p.encode.length, 1⟩
            ∧ Adds queue back done p.encode
        | .error _ => ∀ y ∈ done, y.Still queue back)
      [] (op.script s more) := by
  -- at once or by a job, it is the transfer of a message
  have htransfer : ∀ (link : Link) (parcel : Parcel), link.descriptor = a →
      link.kind = .datagram → (∃ options, parcel = p.parcel options) →
      Script.KeepsMail a b up queue back (fun done answer => match answer with
          | .ok outcome => outcome = .report ⟨p.length, p.encode.length, 1⟩
              ∧ Adds queue back done p.encode
          | .error _ => ∀ y ∈ done, y.Still queue back)
        [] (do return .report (← Script.transfer link parcel false) : Script K Outcome) := by
    rintro link _ hlink hkind ⟨options, rfl⟩
    unfold Script.transfer
    rw [hkind]
    refine Script.keeps_bind (Script.keeps_bind
      ((Script.keepsMail_datagram hK hlink _).mono fun seen answer hanswer => ?_))
    cases answer with
    | error e => exact hanswer
    | ok report =>
        obtain ⟨rfl, hadds⟩ := hanswer
        exact ⟨rfl, hadds⟩
  cases hop with
  | atOnce options =>
      refine Script.keepsMail_link hd (fun _ => by simp) ?_
      rw [hmail.acknowledge]
      exact htransfer _ _ rfl hmail.kind ⟨options, rfl⟩
  | later hparcel =>
      rename_i job options
      obtain ⟨q, started, callback, m, hjob⟩ := hmail.job job rfl
      have hlink := Socket.link_eq_ok hd (Socket.dispatch_job hjob).1
      exact htransfer _ _ (by rw [hlink]) (by rw [hlink]; exact hmail.kind) ⟨options, hparcel⟩

/-- **A receive** at one of the ends. -/
theorem keepsMail_receive (hK : Kernel.Mail a b up queue back) {op : Operation}
    (hmail : OnMail K a b s op) (hd : s.descriptor = some b) (hop : op.Receives) (more : Nat) :
    Script.KeepsMail a b up queue back (fun done answer => match answer with
        | .ok outcome => ∃ data, op.Returns data outcome ∧ Takes queue back done data
        | .error e => ∀ stage, e = .socket ⟨stage, .quotaExhausted⟩ →
            ∀ y ∈ done, y.Still queue back)
      [] (op.script s more) := by
  have hdata := Script.keepsMail_receiveData hK hd hmail.kind hmail.acknowledge more
  cases op with
  | send p options => exact hop.elim
  | carry job => exact hop.elim
  | receiveData => exact keepsMail_wrap (fun _ => rfl) hdata
  | receiveRecords => exact keepsMail_wrap (fun _ => rfl) hdata
  | receivePassed =>
      exact keepsMail_wrap (fun _ => rfl)
        (Script.keepsMail_receivePassed hK hd hmail.kind hmail.acknowledge more)
  | receiveToEnd =>
      exact keepsMail_wrap (fun _ => rfl) (Script.keepsMail_receiveToEnd hK hd hmail.kind more)

theorem sends_or_receives {op : Operation} (hmail : OnMail K a b s op) :
    (∃ p, op.Sends p) ∨ op.Receives := by
  cases op with
  | send p options => exact .inl ⟨p, .atOnce options⟩
  | carry job =>
      obtain ⟨p, options, callback, m, hjob⟩ := hmail.job job rfl
      exact .inl ⟨p, (Socket.dispatch_job hjob).2⟩
  | _ => exact .inr trivial

/-- **Every operation at the ends** keeps the queues in order and delivers. -/
theorem keepsMail_script (hK : Kernel.Mail a b up queue back) {op : Operation}
    (hmail : OnMail K a b s op) (more : Nat) :
    Script.KeepsMail a b up queue back (op.Delivers a b queue back s) [] (op.script s more) := by
  have hback : OnMail K b a s op := ⟨hmail.descriptor.symm, hmail.kind, hmail.acknowledge,
    hmail.job⟩
  have hends : s.descriptor = some a → s.descriptor = some b → False := fun ha hb =>
    hK.apart (Option.some.inj (ha.symm.trans hb))
  have hops : ∀ {p}, op.Sends p → op.Receives → False := by
    rintro p (_ | _) hno <;> exact hno
  rcases sends_or_receives hmail with ⟨p, hp⟩ | hr
  · have : Nonempty { p // op.Sends p } := ⟨p, hp⟩
    rcases hmail.descriptor with hd | hd
    · refine (Script.keeps_all fun p : { p // op.Sends p } =>
        keepsMail_send hK hmail hd p.2 more).mono fun done answer h => ?_
      refine ⟨fun p hp _ outcome hok => ?_, fun p hp _ e he => ?_, fun hr => (hops hp hr).elim,
        fun hr => (hops hp hr).elim⟩
      · subst hok
        exact h ⟨p, hp⟩
      · subst he
        exact h ⟨p, hp⟩
    · -- what it sends goes the other way
      refine Script.keepsMail_symm ((keepsMail_send hK.symm hback hd hp more).mono
        fun done answer _ => ?_)
      exact ⟨fun _ _ ha => (hends ha hd).elim, fun _ _ ha => (hends ha hd).elim,
        fun hr => (hops hp hr).elim, fun hr => (hops hp hr).elim⟩
  · rcases hmail.descriptor with hd | hd
    · refine Script.keepsMail_symm ((keepsMail_receive hK.symm hback hd hr more).mono
        fun done answer _ => ?_)
      exact ⟨fun _ hp => (hops hp hr).elim, fun _ hp => (hops hp hr).elim,
        fun _ hb => (hends hd hb).elim, fun _ hb => (hends hd hb).elim⟩
    · refine (keepsMail_receive hK hmail hd hr more).mono fun done answer h => ?_
      refine ⟨fun _ hp => (hops hp hr).elim, fun _ hp => (hops hp hr).elim,
        fun _ _ outcome hok => ?_, fun _ _ stage he => ?_⟩
      · subst hok
        exact h
      · subst he
        exact h stage rfl

end Operation

namespace Traffic

variable {c : Traffic K}

/-- What happens on the side leaves the messages alone. -/
def Apart (up : K → Prop) (queue back : K → List (List UInt8)) (m m' : Machine K) : Prop :=
  up m'.kernel ∧ queue m'.kernel = queue m.kernel ∧ back m'.kernel = back m.kernel

theorem abides_mail (hK : Kernel.Mail a b up queue back) {m : Machine K} (hup : up m.kernel)
    (h : Reaches (Operation.OnMail K a b) (Apart up queue back) (start m) c) :
    Abides (fun m => up m.kernel) (fun _ _ _ x => x.Balances a b queue back)
      (fun s op => op.Delivers a b queue back s) c :=
  abides_reaches (fun _ _ more hmail => Operation.keepsMail_script hK hmail more)
    (fun _ _ _ hm => hm.1) hup h

/-- The books of one direction, whatever operations come between each other. -/
theorem balanced (hK : Kernel.Mail a b up queue back) {m : Machine K} (hup : up m.kernel)
    (h : Reaches (Operation.OnMail K a b) (Apart up queue back) (start m) c) :
    queue m.kernel ++ c.log.flatMap (Moment.posted a)
      = c.log.flatMap (Moment.fetched b queue) ++ queue c.machine.kernel := by
  induction h with
  | refl => exact List.append_nil _
  | tail hbefore hstep ih =>
      have habides := abides_mail hK hup hbefore
      cases hstep with
      | setOut more _ => exact ih
      | aside hm =>
          rw [← hm.2.1] at ih
          exact ih
      | proceed hi hnext =>
          obtain ⟨-, hbalances, -⟩ :=
            (habides.tasks _ (List.mem_of_getElem? hi)).proceed habides.state hnext
          simp only [proceed, List.flatMap_append, List.flatMap_singleton]
          rw [← List.append_assoc, ih, List.append_assoc, List.append_assoc]
          exact congrArg _ hbalances.there

/-- **Messages correspond.** Whatever operations at two ends come between each other: what was on
its way before and what was sent are, in order, what was received and what is still on its way. A
send that succeeded has put its payload there as one message, and a receive that succeeded answers
all of one message that it took from the front. -/
theorem corresponds (hK : Kernel.Mail a b up queue back) {m : Machine K} (hup : up m.kernel)
    (h : Reaches (Operation.OnMail K a b) (Apart up queue back) (start m) c) :
    queue m.kernel ++ c.log.flatMap (Moment.posted a)
        = c.log.flatMap (Moment.fetched b queue) ++ queue c.machine.kernel
      ∧ ∀ t ∈ c.tasks, ∀ answer, t.script = .ended answer →
          t.op.Delivers a b queue back t.socket t.done answer :=
  ⟨balanced hK hup h, fun t ht _ hended => ((abides_mail hK hup h).tasks t ht).answer hended⟩

/-- A connected datagram socket. A quota paces it. -/
def mailEnd (d : Descriptor) : Socket :=
  { Socket.endOf d (some 0) with kind := .datagram, readChunk := 1 }

/-- Two connected datagram sockets, paced to eight octets a second. -/
def quietMail : Machine Host :=
  { Machine.start Host.mailboxes with quotas := [.unlimited 0 (.clamp 8)] }

/-- A message longer than a burst and an empty one are sent, and two receives take turns. -/
def letters : Traffic Host :=
  [0, 0, 0, 1, 1, 1, 2, 3, 2, 2, 3, 3, 2, 3].foldl advance
    (((((start quietMail).setOut (mailEnd 0) (.send (.records [[1], [2]]) ⟨0, none⟩) 0).setOut
      (mailEnd 0) (.send (.single []) ⟨0, none⟩) 0).setOut
      (mailEnd 1) .receiveRecords 0).setOut (mailEnd 1) .receiveToEnd 0)

example : letters.tasks.map Task.outcome? = [some (.report ⟨2, 3, 1⟩), some (.report ⟨0, 0, 1⟩),
    some (.records [[1], [2]]), some (.data [])] := by decide +kernel

theorem onMail_mailEnd {d : Descriptor} {op : Operation} (hd : d = 0 ∨ d = 1)
    (hop : ∀ job, op ≠ .carry job) : Operation.OnMail Host 0 1 (mailEnd d) op where
  descriptor := hd.imp (congrArg some) (congrArg some)
  kind := rfl
  acknowledge := rfl
  job job hjob := absurd hjob (hop job)

theorem corresponds_letters :
    quietMail.kernel.inboxOf 1 ++ letters.log.flatMap (Moment.posted 0)
        = letters.log.flatMap (Moment.fetched 1 (Host.inboxOf 1))
          ++ letters.machine.kernel.inboxOf 1
      ∧ ∀ t ∈ letters.tasks, ∀ answer, t.script = .ended answer →
          t.op.Delivers 0 1 (Host.inboxOf 1) (Host.inboxOf 0) t.socket t.done answer :=
  corresponds (Host.mail (by decide)) (m := quietMail) Host.paired_mailboxes
    (.advance (.setOut (.setOut (.setOut (.setOut .refl
      0 (onMail_mailEnd (.inl rfl) (by simp))) 0 (onMail_mailEnd (.inl rfl) (by simp)))
      0 (onMail_mailEnd (.inr rfl) (by simp))) 0 (onMail_mailEnd (.inr rfl) (by simp))) _)

end Traffic

end PacedNet
