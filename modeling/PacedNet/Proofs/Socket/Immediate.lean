import PacedNet.Proofs.Host.Copies
import PacedNet.Proofs.Socket.Delivery
import PacedNet.Proofs.Socket.Jobs
import PacedNet.Proofs.Socket.Transitions

/-!
# A background send that does not wait

An asynchronous send whose job is run at once is a synchronous send told through a slot: the same
result, the same octets on the wire, the same time spent at the quota
(`Socket.dispatchAtOnce_eq_send`). Only what comes after a transfer is different: a job never waits
for an acknowledgement.
-/

namespace PacedNet

variable {K : Type} [Kernel K] {s : Socket} {m m₁ : Machine K} {p : Payload}
  {options : SendOptions} {callback : Bool} {link : Link} {r : SendResult}

/-- Starts an asynchronous send whose job is run at once. -/
def Socket.dispatchAtOnce (s : Socket) (p : Payload) (options : SendOptions) (callback : Bool)
    (m : Machine K) : SlotId × Socket × Machine K :=
  let (started, m) := s.dispatch p options callback m
  match started.job with
  | some job => (started.slot, started.socket, (job.run m).2)
  | none => (started.slot, started.socket, m)

/-! ## What waiting for an acknowledgement adds -/

/-- How a send goes on after its transfer where acknowledgement is on: it reads one octet. -/
def Socket.acknowledged (s : Socket) (r : SendResult) : Act K SendReport := do
  let report ← Act.ofExcept r
  let link ← Act.ofExcept s.writer
  Transfer.awaitReply link
  return report

/-- The octets of a transfer, without what comes after them. -/
def Transfer.moved (link : Link) (parcel : Parcel) : Act K SendReport :=
  match link.kind with
  | .datagram => datagram link parcel
  | .stream => stream link parcel.flags parcel.pass ⟨parcel.payloadBytes, 0, 0⟩ (streamWire parcel)

theorem Transfer.run_eq (link : Link) (parcel : Parcel) (acknowledge : Bool) :
    (run link parcel acknowledge : Act K SendReport) = moved link parcel >>= fun report => do
      if acknowledge then awaitReply link
      return report := by
  unfold run moved
  cases link.kind <;> rfl

theorem Transfer.run_quiet (link : Link) (parcel : Parcel) :
    (run link parcel false).run m = (moved link parcel).run m := by
  rw [run_eq]
  cases hmoved : (moved link parcel).run m with
  | mk answer m₁ =>
      cases answer with
      | ok report => exact run_bind_of_ok hmoved
      | error e => exact run_bind_of_error hmoved

/-- A transfer ends with a result for its handle, unless the arithmetic of its quota fails. -/
theorem Transfer.result_of_run {parcel : Parcel} {answer : Except Failure SendReport}
    (h : (run link parcel false).run m = (answer, m₁)) :
    (∃ r : SendResult, answer = r.mapError .socket) ∨ ∃ f, answer = .error (.fault f) := by
  cases answer with
  | ok report => exact .inl ⟨.ok report, rfl⟩
  | error failure =>
      cases (isPaced_run link parcel false h).2 failure rfl with
      | socket e => exact .inl ⟨.error e, rfl⟩
      | endless => exact .inr ⟨_, rfl⟩

namespace Socket

/-- A send is a transfer and the reply to it, if there is one to wait for. -/
theorem run_send_of_quiet (hwriter : s.writer = .ok link)
    (hrun : (Transfer.run link (p.parcel options) false).run m = (r.mapError .socket, m₁)) :
    (s.send p options).run m
      = (if s.acknowledge then s.acknowledged r else Act.ofExcept r).run m₁ := by
  rw [run_send hwriter]
  have hmoved := (Transfer.run_quiet link (p.parcel options)).symm.trans hrun
  cases hacknowledge : s.acknowledge with
  | false =>
      rw [hrun]
      cases r <;> rfl
  | true =>
      rw [Transfer.run_eq, if_pos rfl]
      unfold acknowledged
      rw [hwriter]
      cases r with
      | ok report => exact run_bind_of_ok hmoved
      | error e => exact run_bind_of_error hmoved

/-- A send whose transfer ends in a fault ends in it. -/
theorem run_send_of_fault {f : ArithmeticFault} (hwriter : s.writer = .ok link)
    (hrun : (Transfer.run link (p.parcel options) false).run m = (.error (.fault f), m₁)) :
    (s.send p options).run m = (.error (.fault f), m₁) := by
  rw [run_send hwriter, Transfer.run_eq]
  exact run_bind_of_error ((Transfer.run_quiet link (p.parcel options)).symm.trans hrun)

end Socket

/-! ## Running a job at once -/

namespace Machine

/-- The shared state in which a job runs that was started just now. -/
def awaiting (m : Machine K) (kernel : K) (callback : Bool) (d : Descriptor) : Machine K :=
  { m with kernel, slots := m.slots ++ [.new callback], held := d :: m.held }

/-- The shared state after a send that has been told through a new slot, where `m₁` is the state
after its transfer: the slot is done, and a callback has been called once. -/
def answered (m m₁ : Machine K) (kernel : K) (callback : Bool) (r : SendResult) : Machine K :=
  { m₁ with
    kernel
    slots := m.slots ++ [⟨some r, false, true⟩]
    calls := if callback then m.calls ++ [(m.slots.length, r)] else m.calls }

omit [Kernel K] in
theorem isResolved_snoc {m' : Machine K} {slot : Slot} (h : m'.slots = m.slots ++ [slot])
    (id : SlotId) :
    m'.isResolved id = if id = m.slots.length then slot.done else m.isResolved id := by
  unfold isResolved
  rw [h, List.getElem?_append]
  by_cases hid : id < m.slots.length
  · rw [if_pos hid, if_neg (Nat.ne_of_lt hid)]
  · by_cases hlast : id = m.slots.length
    · simp [hlast]
    · have hout : m.slots.length < id := Nat.lt_of_le_of_ne (Nat.le_of_not_lt hid) (Ne.symm hlast)
      have hnone : [slot][id - m.slots.length]? = none :=
        List.getElem?_eq_none (by simp only [List.length_singleton]; omega)
      rw [if_neg hid, if_neg hlast, hnone, List.getElem?_eq_none (Nat.le_of_lt hout)]

omit [Kernel K] in
/-- There is nothing to wait for where there is no slot. -/
theorem isResolved_length (m : Machine K) : m.isResolved m.slots.length = true := by
  unfold isResolved
  rw [List.getElem?_eq_none (Nat.le_refl _)]
  rfl

end Machine

/-- A job that runs at once goes the way of a synchronous transfer. -/
theorem Job.run_awaiting {before after : K → K → Prop} {kernel : K} (job : Job) (callback : Bool)
    {wire : List UInt8} {payloadBytes flags : Nat} {pass pass' : Option OpenFile}
    (hstands : Transfer.Stands before after pass pass')
    (hplain : Transfer.Stands after after none none) (hslot : job.slot = m.slots.length)
    (hheld : job.link.descriptor ∈ m.held) (hkernel : before m.kernel kernel)
    (hparcel : job.parcel = ⟨wire, payloadBytes, flags, pass'⟩)
    (hrun : (Transfer.run job.link ⟨wire, payloadBytes, flags, pass⟩ false).run m
      = (r.mapError .socket, m₁)) :
    ∃ kernel', after m₁.kernel kernel'
      ∧ (job.run (m.awaiting kernel callback job.link.descriptor)).2
        = m.answered m₁ (job.parcel.closePass kernel') callback r := by
  have hmirrors : m.Mirrors before (m.awaiting kernel callback job.link.descriptor) :=
    ⟨hkernel, rfl, rfl, rfl⟩
  obtain ⟨l, hjob, hafter⟩ := Transfer.mirrors_run hstands hplain job.link wire payloadBytes flags
    hmirrors hrun
  have hm := (Transfer.isPaced_run _ _ _ hrun).1.frame
  have hl := (Transfer.isPaced_run _ _ _ hjob).1.frame
  have hdescriptors : l.held = job.link.descriptor :: m.held := by rw [hl]; rfl
  -- the socket holds its descriptor too, so the job does not close it
  have hmore : 1 < (l.resolve job.slot r).held.count job.link.descriptor := by
    have hcount := List.count_pos_iff.mpr hheld
    rw [(l.keeps_resolve job.slot r).held, hdescriptors, List.count_cons_self]
    omega
  have hended : (job.run (m.awaiting kernel callback job.link.descriptor)).2
      = job.letGo (l.resolve job.slot r) := by
    unfold run
    rw [hparcel, hjob]
    cases r <;> rfl
  have hslots : l.slots = m.slots ++ [.new callback] := by rw [hl]; rfl
  have hcalls : l.calls = m.calls := by rw [hl]; rfl
  have hheld' : l.held.erase job.link.descriptor = m₁.held := by
    rw [hdescriptors, List.erase_cons_head, hm]
  have hsockets : l.sockets = m₁.sockets := by
    rw [hl, hm]
    rfl
  refine ⟨l.kernel, hafter.kernel, ?_⟩
  rw [hended, letGo_eq hmore, hslot, Machine.resolve_newest r hslots]
  unfold Machine.answered
  rw [hheld', hcalls, hsockets, hafter.now, hafter.quotas, hafter.cancelled]

namespace Socket

theorem dispatchAtOnce_of_dispatch {before after : K → K → Prop} {kernel : K} {s' : Socket}
    {flags : Nat} {pass pass' : Option OpenFile} (hstands : Transfer.Stands before after pass pass')
    (hplain : Transfer.Stands after after none none) (hheld : link.descriptor ∈ m.held)
    (hkernel : before m.kernel kernel)
    (hdispatch : s.dispatch p options callback m
      = (⟨m.slots.length, some ⟨m.slots.length, link, p.parcel ⟨flags, pass'⟩⟩, s'⟩,
        m.awaiting kernel callback link.descriptor))
    (hrun : (Transfer.run link (p.parcel ⟨flags, pass⟩) false).run m = (r.mapError .socket, m₁)) :
    ∃ kernel', after m₁.kernel kernel' ∧ s.dispatchAtOnce p options callback m
      = (m.slots.length, s',
        m.answered m₁ ((p.parcel ⟨flags, pass'⟩).closePass kernel') callback r) := by
  obtain ⟨kernel', hafter, hjob⟩ := Job.run_awaiting
    ⟨m.slots.length, link, p.parcel ⟨flags, pass'⟩⟩ callback hstands hplain rfl hheld hkernel rfl
    hrun
  refine ⟨kernel', hafter, ?_⟩
  unfold dispatchAtOnce
  rw [hdispatch]
  exact congrArg (fun machine => (m.slots.length, s', machine)) hjob

/-- A socket that may send, and its job: with the descriptor, if there is one, or with a copy. -/
theorem dispatchAtOnce_of_writer {extra : OpenFile → K → K → Prop} {alike : K → K → Prop}
    (hwriter : s.writer = .ok link) (hheld : link.descriptor ∈ m.held)
    (hcopies : options.pass ≠ none → Kernel.Copies extra alike)
    (hcopy : ∀ file, options.pass = some file →
      ∃ copy k, Kernel.duplicate file m.kernel = (.ok copy, k))
    (hrun : (Transfer.run link (p.parcel options) false).run m = (r.mapError .socket, m₁)) :
    ∃ (kernel : K) (m' : Machine K), m'.slots = m.slots ++ [.new callback]
      ∧ (kernel = m₁.kernel ∨ options.pass ≠ none ∧ alike m₁.kernel kernel)
      ∧ s.dispatchAtOnce p options callback m
        = (m.slots.length, s.register m' m.slots.length, m.answered m₁ kernel callback r) := by
  obtain ⟨flags, pass⟩ := options
  cases pass with
  | none =>
      have hdispatch : s.dispatch p ⟨flags, none⟩ callback m
          = (⟨m.slots.length, some ⟨m.slots.length, link, p.parcel ⟨flags, none⟩⟩,
            s.register (m.addSlot callback).2 m.slots.length⟩,
            m.awaiting m.kernel callback link.descriptor) := by
        unfold dispatch
        dsimp only
        rw [prepare_plain hwriter rfl]
        rfl
      obtain ⟨kernel, hsame, hrun'⟩ := dispatchAtOnce_of_dispatch Transfer.stands_none
        Transfer.stands_none hheld rfl hdispatch hrun
      exact ⟨kernel, _, rfl, .inl hsame.symm, hrun'⟩
  | some file =>
      obtain ⟨copy, k, hduplicate⟩ := hcopy file rfl
      have hcopies := hcopies (by simp)
      have hdispatch : s.dispatch p ⟨flags, some file⟩ callback m
          = (⟨m.slots.length, some ⟨m.slots.length, link, p.parcel ⟨flags, some copy⟩⟩,
            s.register { (m.addSlot callback).2 with kernel := k } m.slots.length⟩,
            m.awaiting k callback link.descriptor) := by
        have hcopied : Kernel.duplicate file (m.addSlot callback).2.kernel = (.ok copy, k) :=
          hduplicate
        unfold dispatch
        dsimp only
        rw [prepare_copy hwriter rfl hcopied]
        rfl
      obtain ⟨kernel, hextra, hrun'⟩ := dispatchAtOnce_of_dispatch (Transfer.stands_copy hcopies)
        (Transfer.stands_plain hcopies copy) hheld hduplicate hdispatch hrun
      exact ⟨Kernel.closeFile copy kernel, _, rfl, .inr ⟨by simp, hcopies.closed hextra⟩, hrun'⟩

omit [Kernel K] in
theorem isResolved_answered {kernel : K} (id : SlotId) :
    (m.answered m₁ kernel callback r).isResolved id = m.isResolved id := by
  have hslots : (m.answered m₁ kernel callback r).slots = m.slots ++ [⟨some r, false, true⟩] := rfl
  rw [Machine.isResolved_snoc hslots]
  split
  · rename_i hid
    rw [hid, m.isResolved_length]
  · rfl

omit [Kernel K] in
/-- A send that has been answered is not counted as pending. -/
theorem pendingSends_answered {m' : Machine K} {kernel : K}
    (hslots : m'.slots = m.slots ++ [.new callback]) :
    (s.register m' m.slots.length).pendingSends (m.answered m₁ kernel callback r)
      = s.pendingSends m := by
  have hopen (id : SlotId) : m'.isResolved id
      = if id = m.slots.length then false else m.isResolved id := Machine.isResolved_snoc hslots id
  unfold pendingSends register
  simp only [isResolved_answered]
  rw [List.filter_append, List.filter_filter, List.filter_singleton, m.isResolved_length]
  congr 1
  refine (List.append_nil _).trans (List.filter_congr fun id _ => ?_)
  rw [hopen]
  by_cases hid : id = m.slots.length
  · rw [hid, m.isResolved_length]
    rfl
  · rw [if_neg hid, Bool.and_self]

/-- **A background send whose job runs at once is a send.** Whatever state a socket is in and
whatever the kernel answers, there are a result `r` and a state `m₁` such that

* a send that waits for no reply ends with `r` in `m₁`;
* a send goes on from there, if acknowledgement is on, by reading a single octet;
* a background send tells `r` through its handle, and once to its callback. It leaves the same state
  as the send, but for that and for having handed over a copy of a descriptor;
* nothing of it is pending. -/
theorem dispatchAtOnce_eq_send (s : Socket) (p : Payload) (options : SendOptions) (callback : Bool)
    (m : Machine K) {extra : OpenFile → K → K → Prop} {alike : K → K → Prop}
    (hcopies : options.pass ≠ none → Kernel.Copies extra alike)
    (hheld : ∀ d, s.descriptor = some d → d ∈ m.held)
    (hcopy : ∀ file, options.pass = some file →
      ∃ copy k, Kernel.duplicate file m.kernel = (.ok copy, k))
    (hfault : ∀ f m', (s.send p options).run m ≠ (.error (.fault f), m')) :
    ∃ (r : SendResult) (m₁ : Machine K) (kernel : K) (pending : List SlotId),
      ({ s with acknowledge := false }.send p options).run m = (r.mapError .socket, m₁)
      ∧ (s.send p options).run m
        = (if s.acknowledge then s.acknowledged r else Act.ofExcept r).run m₁
      ∧ s.dispatchAtOnce p options callback m
        = (m.slots.length, { s with pending }, m.answered m₁ kernel callback r)
      ∧ (kernel = m₁.kernel ∨ options.pass ≠ none ∧ alike m₁.kernel kernel)
      ∧ ({ s with pending } : Socket).pendingSends (m.answered m₁ kernel callback r)
        = s.pendingSends m := by
  have hsame : ({ s with acknowledge := false } : Socket).writer = s.writer := rfl
  cases hwriter : s.writer with
  | error e =>
      refine ⟨.error e, m, m.kernel, s.pending, ?_, ?_, ?_, .inl rfl, ?_⟩
      · unfold send
        rw [hsame, hwriter]
        rfl
      · unfold send acknowledged
        rw [hwriter]
        cases s.acknowledge <;> rfl
      · unfold dispatchAtOnce
        rw [dispatch_refused hwriter]
        rfl
      · unfold pendingSends
        simp only [isResolved_answered]
  | ok link =>
      cases hrun : (Transfer.run link (p.parcel options) false).run m with
      | mk answer m₁ =>
          rcases Transfer.result_of_run hrun with ⟨r, rfl⟩ | ⟨f, rfl⟩
          · obtain ⟨kernel, m', hslots, hkernel, hatonce⟩ := dispatchAtOnce_of_writer hwriter
              (hheld _ (of_link hwriter).1) hcopies hcopy hrun
            have hquiet := (run_send (hsame.trans hwriter) p options m).trans hrun
            exact ⟨r, m₁, kernel, (s.register m' m.slots.length).pending, hquiet,
              run_send_of_quiet hwriter hrun, hatonce, hkernel, pendingSends_answered hslots⟩
          · exact absurd (run_send_of_fault hwriter hrun) (hfault f m₁)

/-- Two connected sockets and a file. -/
def withFile : Machine Host :=
  { Machine.start { Host.pair with contents := [[7]] } with held := [0] }

/-- Two octets and a file leave a socket that waits for replies, while its peer is silent: the
handle has a report, but the send itself goes on to read what is not there. -/
theorem dispatchAtOnce_eq_send_withFile : ∃ (m₁ : Machine Host) (kernel : Host)
    (pending : List SlotId),
    ((Socket.endOf 0 none).send (.single [1, 2]) ⟨0, some 0⟩).run withFile
        = (.ok ⟨2, 2, 1⟩, m₁)
      ∧ ((answeringEnd 0).send (.single [1, 2]) ⟨0, some 0⟩).run withFile
        = ((answeringEnd 0).acknowledged (.ok ⟨2, 2, 1⟩)).run m₁
      ∧ (answeringEnd 0).dispatchAtOnce (.single [1, 2]) ⟨0, some 0⟩ true withFile
        = (0, { answeringEnd 0 with pending }, withFile.answered m₁ kernel true (.ok ⟨2, 2, 1⟩))
      ∧ (kernel = m₁.kernel ∨ Host.Alike m₁.kernel kernel)
      ∧ ({ answeringEnd 0 with pending } : Socket).pendingSends
        (withFile.answered m₁ kernel true (.ok ⟨2, 2, 1⟩)) = 0 := by
  have hreport : (((Socket.endOf 0 none).send (.single [1, 2]) ⟨0, some 0⟩).run withFile).1.toOption
      = some ⟨2, 2, 1⟩ := by decide +kernel
  have hcopied : Kernel.duplicate 0 withFile.kernel
      = (.ok 1, { withFile.kernel with contents := [[7], [7]] }) := rfl
  have hcopy : ∀ file, some 0 = some file →
      ∃ copy k, Kernel.duplicate file withFile.kernel = (.ok copy, k) := by
    rintro _ ⟨⟩
    exact ⟨_, _, hcopied⟩
  have hheld : ∀ d, (answeringEnd 0).descriptor = some d → d ∈ withFile.held := by
    rintro _ ⟨⟩
    exact List.mem_singleton.mpr rfl
  have hfault : ∀ f m', ((answeringEnd 0).send (.single [1, 2]) ⟨0, some 0⟩).run withFile
      ≠ (.error (.fault f), m') := by
    intro f m' h
    rw [run_send (writer_eq rfl rfl)] at h
    cases (Transfer.isPaced_run _ _ _ h).2 _ rfl with
    | endless hquota => exact hquota rfl
  obtain ⟨r, m₁, kernel, pending, hquiet, hsend, hatonce, halike, hpending⟩ :=
    dispatchAtOnce_eq_send _ _ _ true _ (fun _ => Host.copies) hheld hcopy hfault
  have hr : r = .ok ⟨2, 2, 1⟩ := by
    rw [show Socket.endOf 0 none = { answeringEnd 0 with acknowledge := false } from rfl, hquiet]
      at hreport
    cases r with
    | ok report => exact congrArg Except.ok (Option.some.inj hreport)
    | error e => exact absurd hreport (by simp [Except.mapError, Except.toOption])
  subst hr
  exact ⟨m₁, kernel, pending, hquiet, hsend, hatonce, halike.imp_right And.right, hpending⟩

end Socket

end PacedNet
