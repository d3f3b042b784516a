import PacedNet.Proofs.Host.Inbox
import PacedNet.Proofs.Socket.Dropping
import PacedNet.Proofs.Socket.Metering

/-!
# What an operation that fails has taken

A send takes nothing, unless it waits for a reply and finds something else
(`Socket.DropsSending`). So of a receive and of a send alike the error tells what may be lost.
Whatever is lost was at the front of what lay before the socket, and the rest is still there,
whatever others do meanwhile (`Traffic.failure_leaves`).
-/

namespace PacedNet

variable {K : Type}

/-- What a send may have taken that fails with an error. -/
inductive Socket.DropsSending (s : Socket) : SocketError → List (List UInt8) → Prop where
  | nothing (e : SocketError) : DropsSending s e []
  /-- Data stood where the reply was awaited: an octet of a stream, or a whole message. -/
  | wrongReply (octet : UInt8) (rest : List UInt8) : s.acknowledge = true →
      octet ≠ acknowledgement → (s.kind = .stream → rest = []) →
      DropsSending s ⟨.read, .wrongReply octet⟩ [octet :: rest]
  /-- The message that stood there was empty. -/
  | emptyReply : s.acknowledge = true → s.kind = .datagram →
      DropsSending s ⟨.read, .peerClosed⟩ [[]]
  /-- The peer is gone, and with it all that it had sent. -/
  | gone (lost : List (List UInt8)) : s.kind = .datagram →
      DropsSending s ⟨.write, .system .connectionRefused⟩ lost

variable {kind : Kind} {d : Descriptor} {up : K → Prop} {queue : K → List (List UInt8)}
  {s : Socket} {link : Link} {own : List (Moment K)} {m m' : Machine K}

/-- Of a stream nothing was taken if no octet was. -/
theorem Machine.takes_stream_nil (h : Machine.Takes .stream up queue [[]] m m') :
    Machine.Takes .stream up queue [] m m' :=
  ⟨h.up, Kind.leaves_stream_nil.mp h.leaves⟩

namespace Transfer

/-- Where nothing stood for a reply, the stream has ended or a message was empty. -/
theorem drops_empty (hack : s.acknowledge = true) {got : Incoming} {taken : List (List UInt8)}
    (htaken : got.Takes s.kind 1 taken) (hnil : got.octets = [])
    (htakes : Machine.Takes s.kind up queue taken m m') :
    ∃ lost, s.DropsSending ⟨.read, .peerClosed⟩ lost
      ∧ Machine.Takes s.kind up queue lost m m' := by
  cases hkind : s.kind with
  | stream =>
      rw [hkind] at htaken htakes
      obtain ⟨rfl, -⟩ := htaken
      rw [hnil] at htakes
      exact ⟨[], .nothing _, Machine.takes_stream_nil htakes⟩
  | datagram =>
      rw [hkind] at htaken htakes
      rcases htaken with ⟨rfl, -⟩ | ⟨message, rfl, hmessage, -⟩
      · exact ⟨[], .nothing _, htakes⟩
      · obtain rfl : message = [] := by
          have hempty := hmessage.symm.trans hnil
          rw [List.take_eq_nil_iff] at hempty
          simpa using hempty
        exact ⟨_, .emptyReply hack hkind, htakes⟩

/-- What stood for a reply is an octet of a stream, or starts a message. -/
theorem drops_wrong (hack : s.acknowledge = true) {got : Incoming} {taken : List (List UInt8)}
    (htaken : got.Takes s.kind 1 taken) {octet : UInt8} {rest : List UInt8}
    (hoctets : got.octets = octet :: rest) (hwrong : octet ≠ acknowledgement)
    (htakes : Machine.Takes s.kind up queue taken m m') :
    ∃ lost, s.DropsSending ⟨.read, .wrongReply octet⟩ lost
      ∧ Machine.Takes s.kind up queue lost m m' := by
  cases hkind : s.kind with
  | stream =>
      rw [hkind] at htaken htakes
      obtain ⟨rfl, hone⟩ := htaken
      rw [hoctets] at htakes hone
      have hrest : rest = [] := by simpa using hone
      exact ⟨_, .wrongReply octet rest hack hwrong fun _ => hrest, htakes⟩
  | datagram =>
      rw [hkind] at htaken htakes
      rcases htaken with ⟨-, hnil⟩ | ⟨message, rfl, hmessage, -⟩
      · exact absurd (hnil.symm.trans hoctets) (by simp)
      · cases message with
        | nil => exact absurd (hmessage.symm.trans hoctets) (by simp)
        | cons first more =>
            obtain rfl : first = octet := by
              have hfirst := hmessage.symm.trans hoctets
              injection hfirst
            have hstream : s.kind = .stream → more = [] :=
              fun hno => absurd (hkind.symm.trans hno) (by simp)
            exact ⟨_, .wrongReply first more hack hwrong hstream, htakes⟩

/-- Waiting for a reply takes what stands there instead of one. -/
theorem drops_awaitReply [Kernel K] (hK : Kernel.Inbox s.kind d up queue)
    (hack : s.acknowledge = true) (hlink : link.descriptor = d) (hup : up m.kernel) {e : SocketError}
    (h : (awaitReply link).run m = (.error (.socket e), m')) :
    ∃ lost, s.DropsSending e lost ∧ Machine.Takes s.kind up queue lost m m' := by
  subst hlink
  unfold awaitReply at h
  rcases run_bind h with ⟨got, m₁, hreceive, h₁⟩ | ⟨failure, hreceive, -⟩
  · rcases Socket.takes_receiveCall hK hup hreceive with
      ⟨errno, hno, -⟩ | ⟨got', taken, hgot, htakes, hmore⟩
    · exact absurd hno (by simp)
    · injection hgot with hgot
      subst hgot
      split at h₁
      · rename_i hnil
        injection h₁ with he hm
        injection he with he
        injection he with he
        subst he hm
        exact drops_empty hack htakes hnil hmore
      · rename_i octet rest hoctets
        split at h₁
        · injection h₁ with hno _
          exact absurd hno (by simp)
        · rename_i hwrong
          injection h₁ with he hm
          injection he with he
          injection he with he
          subst he hm
          exact drops_wrong hack htakes hoctets hwrong hmore
  · rcases Socket.takes_receiveCall hK hup hreceive with
      ⟨errno, -, htakes⟩ | ⟨got, taken, hno, -⟩
    · exact ⟨[], .nothing e, htakes⟩
    · exact absurd hno (by simp)

end Transfer

/-! ## Sending -/

/-- The error that an operation has failed with. -/
def Task.error? (t : Task K) : Option SocketError :=
  match t.script with
  | .ended (.error (.socket e)) => some e
  | _ => none

theorem Task.error?_eq_some {t : Task K} {e : SocketError} (h : t.error? = some e) :
    t.script = .ended (.error (.socket e)) := by
  unfold error? at h
  split at h
  · rename_i hscript
    injection h with h
    rw [hscript, h]
  · exact absurd h (by simp)

namespace Script

theorem does_checkpoint (hup : ∀ x ∈ own, up x.before.kernel)
    {r : Except Failure Unit}
    (h : (checkpoint link : Script K Unit).Does own (ended r)) : Tally kind queue own [] := by
  obtain ⟨m, m', rfl, hrun⟩ := does_step h
  have htakes : Machine.Takes kind up queue [] m m' :=
    Machine.takes_of_kernel (by rw [Transfer.run_checkpoint hrun]) (hup _ List.mem_cons_self)
  exact htakes.tally _

variable [Kernel K]

/-- A call that sends takes nothing, unless the peer of a datagram socket is gone. -/
theorem does_send (hK : Kernel.Inbox kind d up queue) (hlink : link.descriptor = d)
    (hup : ∀ x ∈ own, up x.before.kernel) {octets : List UInt8} {flags : Nat}
    {pass : Option OpenFile} {r : Except Failure Nat}
    (h : (send link octets flags pass : Script K Nat).Does own (ended r)) :
    ∃ lost, Tally kind queue own lost ∧ (lost = [] ∨ kind = .datagram
      ∧ r = .error (.socket ⟨.write, .system .connectionRefused⟩)) := by
  subst hlink
  obtain ⟨m, m', rfl, hrun⟩ := does_step h
  obtain ⟨lost, htakes, hcases, -⟩ := Act.takes_send hK (hup _ List.mem_cons_self) hrun
  exact ⟨lost, htakes.tally _, hcases⟩

/-- A round of a stream takes nothing. -/
theorem does_round (hK : Kernel.Inbox .stream d up queue) (hlink : link.descriptor = d)
    (hup : ∀ x ∈ own, up x.before.kernel) {flags : Nat} {pass : Option OpenFile}
    {rest : List UInt8} {r : Except Failure Nat}
    (h : (round link flags pass rest : Script K Nat).Does own (ended r)) :
    Tally .stream queue own [] := by
  rcases does_bind h with ⟨⟨⟩, first, second, rfl, hcheck, h₁⟩ | ⟨failure, hcheck, -⟩
  · obtain ⟨hup₁, hup₂⟩ := List.forall_mem_append.mp hup
    have hchecked : Tally .stream queue first [] := does_checkpoint hup₁ hcheck
    rcases does_bind h₁ with ⟨grant, third, fourth, rfl, hpace, hsend⟩ | ⟨failure, hpace, -⟩
    · obtain ⟨hup₃, hup₄⟩ := List.forall_mem_append.mp hup₂
      obtain ⟨-, -, -, hpaced, -⟩ := does_pace hup₃ hpace
      obtain ⟨lost, hsent, hcases⟩ := does_send hK hlink hup₄ hsend
      obtain rfl : lost = [] := by simpa using hcases
      exact hchecked.append (hpaced.append hsent)
    · obtain ⟨-, -, -, hpaced, -⟩ := does_pace hup₂ hpace
      exact hchecked.append hpaced
  · exact does_checkpoint hup hcheck

/-- The rounds of a stream take nothing. -/
theorem does_stream (hK : Kernel.Inbox .stream d up queue) (hlink : link.descriptor = d)
    (hup : ∀ x ∈ own, up x.before.kernel) {flags : Nat} {pass : Option OpenFile}
    {report : SendReport} {rest : List UInt8} {r : Except Failure SendReport}
    (h : (stream link flags pass report rest : Script K SendReport).Does own (ended r)) :
    Tally .stream queue own [] := by
  -- each round leaves less to send
  induction hn : rest.length using Nat.strongRecOn generalizing pass report rest own with
  | ind n ih =>
      subst hn
      cases rest with
      | nil =>
          rw [stream] at h
          obtain ⟨rfl, -⟩ := does_ended h
          exact tally_nil
      | cons octet tail =>
          rw [stream] at h
          rcases does_bind h with ⟨sent, first, second, rfl, hround, h₁⟩ | ⟨failure, hround, -⟩
          · obtain ⟨hup₁, hup₂⟩ := List.forall_mem_append.mp hup
            have hfirst := does_round hK hlink hup₁ hround
            dsimp only at h₁
            split at h₁
            · obtain ⟨rfl, -⟩ := does_ended h₁
              exact hfirst.append tally_nil
            · have hless : ((octet :: tail).drop sent).length < (octet :: tail).length := by
                rw [List.length_drop, List.length_cons]
                omega
              exact hfirst.append (ih _ hless hup₂ h₁ rfl)
          · exact does_round hK hlink hup hround

/-- A message leaves in one call, which takes nothing unless the peer is gone. -/
theorem does_datagram (hK : Kernel.Inbox .datagram d up queue) (hlink : link.descriptor = d)
    (hup : ∀ x ∈ own, up x.before.kernel) {parcel : Parcel} {r : Except Failure SendReport}
    (h : (datagram link parcel : Script K SendReport).Does own (ended r)) :
    ∃ lost, Tally .datagram queue own lost
      ∧ (lost = [] ∨ r = .error (.socket ⟨.write, .system .connectionRefused⟩)) := by
  rcases does_bind h with ⟨⟨⟩, first, second, rfl, hcheck, h₁⟩ | ⟨failure, hcheck, -⟩
  · obtain ⟨hup₁, hup₂⟩ := List.forall_mem_append.mp hup
    have hchecked : Tally .datagram queue first [] := does_checkpoint hup₁ hcheck
    rcases does_bind h₁ with ⟨grant, third, fourth, rfl, hpace, h₂⟩ | ⟨failure, hpace, -⟩
    · obtain ⟨hup₃, hup₄⟩ := List.forall_mem_append.mp hup₂
      obtain ⟨-, -, hpaced, -⟩ := does_paceWhole hup₃ hpace
      have hsofar := hchecked.append hpaced
      rw [← List.append_assoc]
      rcases does_bind h₂ with ⟨sent, fifth, sixth, rfl, hsend, hreturn⟩ | ⟨failure, hsend, rfl⟩
      · obtain ⟨hup₅, -⟩ := List.forall_mem_append.mp hup₄
        obtain ⟨lost, hsent, hcases⟩ := does_send hK hlink hup₅ hsend
        obtain rfl : lost = [] := by simpa using hcases
        obtain ⟨rfl, -⟩ := does_ended hreturn
        exact ⟨[], hsofar.append (hsent.append tally_nil), .inl rfl⟩
      · obtain ⟨lost, hsent, hcases⟩ := does_send hK hlink hup₄ hsend
        refine ⟨lost, hsofar.append hsent, hcases.imp_right fun ⟨_, hrefused⟩ => ?_⟩
        injection hrefused with hrefused
        rw [hrefused]
    · obtain ⟨-, -, hpaced, -⟩ := does_paceWhole hup₂ hpace
      exact ⟨[], hchecked.append hpaced, .inl rfl⟩
  · exact ⟨[], does_checkpoint hup hcheck, .inl rfl⟩

/-- Waiting for a reply takes what stands there instead of one. -/
theorem does_awaitReply (hK : Kernel.Inbox s.kind d up queue) (hack : s.acknowledge = true)
    (hlink : link.descriptor = d) (hup : ∀ x ∈ own, up x.before.kernel) {e : SocketError}
    (h : (awaitReply link : Script K Unit).Does own (ended (.error (.socket e)))) :
    ∃ lost, s.DropsSending e lost ∧ Tally s.kind queue own lost := by
  subst hlink
  obtain ⟨m, m', rfl, hrun⟩ := does_step h
  obtain ⟨lost, hdrops, htakes⟩ :=
    Transfer.drops_awaitReply hK hack rfl (hup _ List.mem_cons_self) hrun
  exact ⟨lost, hdrops, htakes.tally _⟩

/-- **A send that fails.** -/
theorem does_transfer (hK : Kernel.Inbox s.kind d up queue) (hlink : link.descriptor = d)
    (hkind : link.kind = s.kind) (hup : ∀ x ∈ own, up x.before.kernel) {parcel : Parcel}
    {e : SocketError}
    (h : (transfer link parcel s.acknowledge : Script K SendReport).Does own
      (ended (.error (.socket e)))) :
    ∃ lost, s.DropsSending e lost ∧ Tally s.kind queue own lost := by
  -- what comes after the data is on the wire, if it fails
  have hending {first own : List (Moment K)} (hfirst : Tally s.kind queue first [])
      (hup : ∀ x ∈ own, up x.before.kernel) {report : SendReport}
      (h : (do if s.acknowledge then awaitReply link
               return report : Script K SendReport).Does own (ended (.error (.socket e)))) :
      ∃ lost, s.DropsSending e lost ∧ Tally s.kind queue (first ++ own) lost := by
    split at h
    · rename_i hack
      rcases does_bind h with ⟨⟨⟩, second, third, -, -, hreturn⟩ | ⟨failure, hawait, he⟩
      · exact absurd (does_ended hreturn).2 (by simp)
      · injection he with he
        subst he
        obtain ⟨lost, hdrops, htally⟩ := does_awaitReply hK hack hlink hup hawait
        exact ⟨lost, hdrops, hfirst.append htally⟩
    · exact absurd (does_ended h).2 (by simp)
  unfold transfer at h
  cases hs : s.kind with
  | stream =>
      rw [hs] at hK hending
      rw [hkind, hs] at h
      rcases does_bind h with ⟨report, first, second, rfl, hcarry, hend⟩ | ⟨failure, hcarry, -⟩
      · obtain ⟨hup₁, hup₂⟩ := List.forall_mem_append.mp hup
        exact hending (does_stream hK hlink hup₁ hcarry) hup₂ hend
      · exact ⟨[], .nothing e, does_stream hK hlink hup hcarry⟩
  | datagram =>
      rw [hs] at hK hending
      rw [hkind, hs] at h
      rcases does_bind h with ⟨report, first, second, rfl, hcarry, hend⟩ | ⟨failure, hcarry, he⟩
      · obtain ⟨hup₁, hup₂⟩ := List.forall_mem_append.mp hup
        obtain ⟨lost, hfirst, hcases⟩ := does_datagram hK hlink hup₁ hcarry
        obtain rfl : lost = [] := by simpa using hcases
        exact hending hfirst hup₂ hend
      · obtain ⟨lost, htally, hcases⟩ := does_datagram hK hlink hup hcarry
        refine ⟨lost, ?_, htally⟩
        rcases hcases with rfl | hrefused
        · exact .nothing e
        · injection hrefused with hrefused
          rw [hrefused] at he
          injection he with he
          injection he with he
          rw [he]
          exact .gone lost hs

end Script

variable [Kernel K]

/-- What an operation of the socket has taken that fails. -/
theorem Operation.does_script (hK : Kernel.Inbox kind d up queue) {op : Operation}
    (hop : op.At d kind s) (hup : ∀ x ∈ own, up x.before.kernel)
    (hfits : ∀ x ∈ own, ∃ taken, (Take.mk x taken).Fits kind queue) {more : Nat} {e : SocketError}
    (h : (op.script s more).Does own (.ended (.error (.socket e)))) :
    ∃ taken, Tally kind queue own taken
      ∧ (op = .receiveData ∨ op = .receiveRecords → s.DropsReceiving own e taken)
      ∧ ∀ p options, op = .send p options → s.DropsSending e taken := by
  obtain rfl := hop.kind
  -- of the other operations it is known only that each step has taken something from the front
  have hother : ∃ taken, Tally s.kind queue own taken := by
    have hnone : (([] : List (Take K)).map Take.moment).Sublist own := List.nil_sublist own
    obtain ⟨takes, hmap, -, hall⟩ := exists_takes hnone (by simp) hfits
    exact ⟨_, takes, hmap, hall, rfl⟩
  cases op with
  | send p options =>
      replace h : (Script.ofExcept s.writer >>= fun link => do
          return .report (← Script.transfer link (p.parcel options) s.acknowledge) :
        Script K Outcome).Does own (.ended (.error (.socket e))) := h
      cases hwriter : s.writer with
      | error refused =>
          rw [hwriter] at h
          obtain ⟨rfl, -⟩ := Script.does_ended h
          exact ⟨[], tally_nil, by simp, fun _ _ _ => .nothing e⟩
      | ok link =>
          obtain rfl := Socket.link_eq_ok hop.descriptor hwriter
          rw [hwriter] at h
          obtain ⟨lost, hdrops, htally⟩ :=
            Script.does_transfer hK rfl rfl hup (Script.does_return h)
          exact ⟨lost, htally, by simp, fun _ _ _ => hdrops⟩
  | receiveData =>
      obtain ⟨lost, hdrops, htally⟩ :=
        Script.does_receiveData hK hop.descriptor hup (Script.does_return h)
      exact ⟨lost, htally, fun _ => hdrops, by simp⟩
  | receiveRecords =>
      obtain ⟨lost, hdrops, htally⟩ :=
        Script.does_receiveData hK hop.descriptor hup (Script.does_return h)
      exact ⟨lost, htally, fun _ => hdrops, by simp⟩
  | carry job =>
      obtain ⟨taken, htally⟩ := hother
      exact ⟨taken, htally, by simp, by simp⟩
  | receivePassed =>
      obtain ⟨taken, htally⟩ := hother
      exact ⟨taken, htally, by simp, by simp⟩
  | receiveToEnd =>
      obtain ⟨taken, htally⟩ := hother
      exact ⟨taken, htally, by simp, by simp⟩

/-! ## What is left -/

/-- **What an operation that fails has taken**, whatever others do meanwhile. The steps tell what
each has taken: all of that was at the front of what lay before the socket and has arrived since,
and all else is still there. What the steps of a receive or a send that fails have taken is lost,
and its error tells what that may be. -/
theorem Traffic.failure_leaves (hK : Kernel.Inbox kind d up queue) (hup : up m.kernel)
    {c : Traffic K}
    (h : Reaches (Operation.At d kind) (Arrives kind up queue) (start m) c) {t : Task K}
    (ht : t ∈ c.tasks) {e : SocketError} (hfailed : t.error? = some e) :
    ∃ takes own : List (Take K), takes.map Take.moment = c.log ∧ own.map Take.moment = t.done
      ∧ own.Sublist takes ∧ (∀ x ∈ takes, x.Fits kind queue)
      ∧ kind.Leaves (queue m.kernel) (takes.flatMap Take.taken) (queue c.machine.kernel)
      ∧ (t.op = .receiveData ∨ t.op = .receiveRecords →
          t.socket.DropsReceiving t.done e (own.flatMap Take.taken))
      ∧ ∀ p options, t.op = .send p options →
          t.socket.DropsSending e (own.flatMap Take.taken) := by
  have hlog := taking_reaches hK hup h
  have hsub := done_sublist h ht
  obtain ⟨hop, more, hdoes⟩ := does_reaches h ht
  rw [Task.error?_eq_some hfailed] at hdoes
  obtain ⟨taken, ⟨own, hmap, hfits, rfl⟩, hdrops⟩ := Operation.does_script hK hop
    (fun x hx => (hlog x (hsub.subset hx)).1) (fun x hx => (hlog x (hsub.subset hx)).2) hdoes
  obtain ⟨takes, htakes, hown, hall⟩ :=
    exists_takes (hmap ▸ hsub) hfits fun x hx => (hlog x hx).2
  exact ⟨takes, own, htakes, hmap, hown, hall, leaves_reaches h htakes hall, hdrops⟩

/-- Somebody else sets the shares of all quotas to nothing. -/
def Machine.shutQuotas (m : Machine K) : Machine K :=
  { m with quotas := m.quotas.map fun q => { q with fraction := .zero } }

namespace Traffic

/-- A receive of three octets has read the first, which is all that its quota lets pass at once. -/
def oneChunkRead : Traffic Host :=
  [0, 0, 0, 0, 0, 0].foldl advance
    ((start (loaded [1, 2, 3] 8)).setOut (pacedEnd 1 false) .receiveData 0)

/-- The quota is shut before the next chunk. -/
def shutBetweenChunks : Traffic Host :=
  [0].foldl advance { oneChunkRead with machine := oneChunkRead.machine.shutQuotas }

theorem reaches_oneChunkRead :
    Reaches (Operation.At 1 .stream) (Arrives .stream (Host.Bears .stream 1) (Host.inboxOf 1))
      (start (loaded [1, 2, 3] 8)) oneChunkRead :=
  .advance (.setOut .refl 0 ⟨rfl, rfl, by simp⟩) _

theorem reaches_shutBetweenChunks (hup : Host.Bears .stream 1 (loaded [1, 2, 3] 8).kernel) :
    Reaches (Operation.At 1 .stream) (Arrives .stream (Host.Bears .stream 1) (Host.inboxOf 1))
      (start (loaded [1, 2, 3] 8)) shutBetweenChunks := by
  have hup' := (abides_taking (Host.inbox .stream 1) hup reaches_oneChunkRead).state
  have hshut : Arrives .stream (Host.Bears .stream 1) (Host.inboxOf 1) oneChunkRead.machine
      oneChunkRead.machine.shutQuotas := ⟨hup', Kind.leaves_refl _⟩
  exact .advance (reaches_oneChunkRead.tail (.aside oneChunkRead hshut)) [0]

/-- The octet that the first chunk took is lost. -/
theorem failure_leaves_shutBetweenChunks :
    (loaded [1, 2, 3] 8).kernel.inboxOf 1 = [[1, 2, 3]]
      ∧ shutBetweenChunks.machine.kernel.inboxOf 1 = [[2, 3]]
      ∧ ∃ t ∈ shutBetweenChunks.tasks, t.error? = some ⟨.read, .quotaExhausted⟩
        ∧ ∃ takes own : List (Take Host), takes.map Take.moment = shutBetweenChunks.log
          ∧ own.map Take.moment = t.done ∧ own.Sublist takes
          ∧ (∀ x ∈ takes, x.Fits .stream (Host.inboxOf 1))
          ∧ Kind.stream.Leaves [[1, 2, 3]] (takes.flatMap Take.taken) [[2, 3]]
          ∧ t.socket.DropsReceiving t.done ⟨.read, .quotaExhausted⟩
            (own.flatMap Take.taken) := by
  have hbefore : (loaded [1, 2, 3] 8).kernel.inboxOf 1 = [[1, 2, 3]] := by decide +kernel
  have hafter : shutBetweenChunks.machine.kernel.inboxOf 1 = [[2, 3]] := by decide +kernel
  have hup : Host.Bears .stream 1 (loaded [1, 2, 3] 8).kernel := ⟨_, rfl, rfl⟩
  have hanswers : shutBetweenChunks.tasks.map (fun t => (t.error?, t.op matches .receiveData))
      = [(some ⟨.read, .quotaExhausted⟩, true)] := by decide +kernel
  obtain ⟨t, htasks, hanswer⟩ := List.map_eq_singleton_iff.mp hanswers
  have ht : t ∈ shutBetweenChunks.tasks := htasks ▸ List.mem_singleton_self t
  obtain ⟨hfailed, hreceive⟩ := Prod.ext_iff.mp hanswer
  have hop : t.op = .receiveData := by
    cases hop : t.op with
    | receiveData => rfl
    | _ => simp [hop] at hreceive
  obtain ⟨takes, own, hlog, hdone, hsub, hfits, hleaves, hdrops, -⟩ :=
    failure_leaves (Host.inbox .stream 1) hup (reaches_shutBetweenChunks hup) ht hfailed
  rw [hbefore, hafter] at hleaves
  exact ⟨hbefore, hafter, t, ht, hfailed, takes, own, hlog, hdone, hsub, hfits, hleaves,
    hdrops (.inl hop)⟩

end Traffic

/-- Three octets lie before an end of a stream whose other end is closed. -/
def bereft : Machine Host :=
  Machine.start (Kernel.close 0 (Kernel.send 0 [1, 2, 3] 0 none Host.pair).2).2

/-- **A receive that fails may lose what it has read.** The reply finds the other end gone, and the
three octets are nowhere. -/
theorem Socket.bereft_lost :
    ∃ m', (Socket.answeringEnd 1).receiveData.run bereft
          = (.error (.socket ⟨.write, .system .brokenPipe⟩), m')
      ∧ bereft.kernel.inboxOf 1 = [[1, 2, 3]] ∧ m'.kernel.inboxOf 1 = []
      ∧ ¬ Kind.stream.Leaves (bereft.kernel.inboxOf 1) [] (m'.kernel.inboxOf 1) := by
  have hafter : bereft.kernel.inboxOf 1 = [[1, 2, 3]] := by decide +kernel
  refine ⟨_, rfl, hafter, by decide +kernel, fun ⟨arrived, hsame⟩ => ?_⟩
  have hnone : (bereft.kernel.inboxOf 1 ++ arrived).flatten = [] := hsame
  rw [hafter] at hnone
  exact absurd hnone (by simp)

end PacedNet
