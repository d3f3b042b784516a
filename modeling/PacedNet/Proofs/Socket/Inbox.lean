import PacedNet.Proofs.Socket.Sending
import PacedNet.Socket.Receive

/-!
# What lies before a socket

What a socket may still receive lies before it: octets on a stream, messages on a datagram socket.
Of the calls that a socket makes only a receive takes from it, and no more than it answers; the
peer may add to it at any time (`Kernel.Inbox`). There is one exception: a datagram socket whose
send is refused, because its peer is gone, may lose all that the peer had sent.

So what a call has taken when it fails is read off its parts (`Kind.Leaves`).
-/

namespace PacedNet

variable {K : Type}

/-- The same to whoever receives: octets count on a stream, messages on a datagram socket. -/
def Kind.Same (kind : Kind) (x y : List (List UInt8)) : Prop :=
  match kind with
  | .stream => x.flatten = y.flatten
  | .datagram => x = y

/-- What lay there before was taken from the front, and the rest is there, with what has arrived. -/
def Kind.Leaves (kind : Kind) (before taken after : List (List UInt8)) : Prop :=
  ∃ arrived, kind.Same (before ++ arrived) (taken ++ after)

namespace Kind

variable {kind : Kind} {before between after taken more : List (List UInt8)}

theorem leaves_refl (before : List (List UInt8)) : kind.Leaves before [] before := by
  refine ⟨[], ?_⟩
  rw [List.append_nil, List.nil_append]
  cases kind <;> exact rfl

theorem leaves_arrived (before arrived : List (List UInt8)) :
    kind.Leaves before [] (before ++ arrived) := by
  refine ⟨arrived, ?_⟩
  cases kind <;> exact rfl

theorem Leaves.trans (h : kind.Leaves before taken between) (h' : kind.Leaves between more after) :
    kind.Leaves before (taken ++ more) after := by
  obtain ⟨arrived, hsame⟩ := h
  obtain ⟨later, hsame'⟩ := h'
  refine ⟨arrived ++ later, ?_⟩
  cases kind with
  | stream =>
      have hs : (before ++ arrived).flatten = (taken ++ between).flatten := hsame
      have hs' : (between ++ later).flatten = (more ++ after).flatten := hsame'
      show (before ++ (arrived ++ later)).flatten = (taken ++ more ++ after).flatten
      simp only [List.flatten_append] at hs hs' ⊢
      rw [← List.append_assoc, hs, List.append_assoc, hs', List.append_assoc]
  | datagram =>
      have hs : before ++ arrived = taken ++ between := hsame
      have hs' : between ++ later = more ++ after := hsame'
      show before ++ (arrived ++ later) = taken ++ more ++ after
      rw [← List.append_assoc, hs, List.append_assoc, hs', List.append_assoc]

/-- Of a stream nothing was taken if no octet was. -/
theorem leaves_stream_nil :
    Kind.stream.Leaves before [[]] after ↔ Kind.stream.Leaves before [] after := Iff.rfl

end Kind

/-- What was taken by a receive that answers so. On a datagram socket that is a message, which may
be cut to fit, or nothing, where nothing will come. -/
def Incoming.Takes (kind : Kind) (room : Nat) (taken : List (List UInt8)) (got : Incoming) : Prop :=
  match kind with
  | .stream => taken = [got.octets] ∧ got.octets.length ≤ room
  | .datagram => taken = [] ∧ got.octets = []
      ∨ ∃ message, taken = [message] ∧ got.octets = message.take room
          ∧ got.length = message.length

/-- While the socket is up, `queue` is what lies before it. -/
structure Kernel.Inbox [Kernel K] (kind : Kind) (d : Descriptor) (up : K → Prop)
    (queue : K → List (List UInt8)) : Prop where
  /-- A send takes nothing, unless the peer is gone. -/
  send : ∀ {octets : List UInt8} {flags : Nat} {pass : Option OpenFile} {answer : Except Errno Nat}
    {k k' : K}, up k → Kernel.send d octets flags pass k = (answer, k') →
    up k' ∧ ∃ lost, kind.Leaves (queue k) lost (queue k')
      ∧ (lost = [] ∨ kind = .datagram ∧ answer = .error .connectionRefused)
  /-- A receive takes what it answers. -/
  receive : ∀ {room : Nat} {got : Incoming} {k k' : K}, up k →
    Kernel.receive d room k = (.ok got, k') →
    up k' ∧ ∃ taken, got.Takes kind room taken ∧ kind.Leaves (queue k) taken (queue k')
  /-- A receive that fails takes nothing. -/
  refuse : ∀ {room : Nat} {e : Errno} {k k' : K}, up k →
    Kernel.receive d room k = (.error e, k') → up k' ∧ kind.Leaves (queue k) [] (queue k')
  ready : ∀ {answer : Bool} {k k' : K}, up k → Kernel.ready d k = (answer, k') →
    up k' ∧ kind.Leaves (queue k) [] (queue k')
  nextLength : ∀ {answer : Except Errno Nat} {k k' : K}, up k →
    Kernel.nextLength d k = (answer, k') → up k' ∧ kind.Leaves (queue k) [] (queue k')

/-- What was taken of what lay before the socket, which is still up. -/
structure Machine.Takes (kind : Kind) (up : K → Prop) (queue : K → List (List UInt8))
    (taken : List (List UInt8)) (m m' : Machine K) : Prop where
  up : up m'.kernel
  leaves : kind.Leaves (queue m.kernel) taken (queue m'.kernel)

/-- What an operation takes is at the front of what lay before the socket. -/
def Act.IsTaking {α : Type} (kind : Kind) (up : K → Prop) (queue : K → List (List UInt8))
    (act : Act K α) : Prop :=
  ∀ ⦃m m' : Machine K⦄ ⦃r : Except Failure α⦄, up m.kernel → act.run m = (r, m') →
    ∃ taken, Machine.Takes kind up queue taken m m'

section

variable {kind : Kind} {d : Descriptor} {up : K → Prop} {queue : K → List (List UInt8)}
  {m m₁ m' : Machine K} {link : Link}

theorem Machine.takes_of_kernel (hkernel : m'.kernel = m.kernel) (hup : up m.kernel) :
    Machine.Takes kind up queue [] m m' where
  up := hkernel.symm ▸ hup
  leaves := by
    rw [hkernel]
    exact Kind.leaves_refl _

/-- Asking a quota is no matter of the kernel. -/
theorem Act.takes_paceWhole (hup : up m.kernel) {stage : Stage} {quota : Option QuotaId}
    {bytes : Nat} {r : Except Failure Nat}
    (h : (Act.pace stage quota bytes Quota.throttleExact).run m = (r, m')) :
    Machine.Takes kind up queue [] m m' :=
  Machine.takes_of_kernel (moves_pace (fun q now n => (q.reserve_spec now n).1) h).2 hup

variable [Kernel K]

namespace Socket

/-- A run of a call that receives. -/
theorem takes_receiveCall (hK : Kernel.Inbox kind d up queue) (hup : up m.kernel) {room : Nat}
    {r : Except Failure Incoming} (h : (receiveCall d room).run m = (r, m')) :
    (∃ errno, r = .error (.socket ⟨.read, .system errno⟩) ∧ Machine.Takes kind up queue [] m m')
      ∨ ∃ got taken, r = .ok got ∧ got.Takes kind room taken
          ∧ Machine.Takes kind up queue taken m m' := by
  unfold receiveCall at h
  obtain ⟨-, ⟨errno, hrefuse, rfl⟩ | ⟨got, hreceive, rfl⟩⟩ := Act.run_call_cases h
  · obtain ⟨hup', hleaves⟩ := hK.refuse hup hrefuse
    exact .inl ⟨errno, rfl, hup', hleaves⟩
  · obtain ⟨hup', taken, htakes, hleaves⟩ := hK.receive hup hreceive
    exact .inr ⟨got, taken, rfl, htakes, hup', hleaves⟩

theorem isTaking_receiveCall (hK : Kernel.Inbox kind d up queue) (room : Nat) :
    (receiveCall d room).IsTaking kind up queue := by
  intro m m' r hup h
  rcases takes_receiveCall hK hup h with ⟨errno, -, htakes⟩ | ⟨got, taken, -, -, htakes⟩
  · exact ⟨[], htakes⟩
  · exact ⟨taken, htakes⟩

/-- A run of looking whether something is there. -/
theorem takes_isReady (hK : Kernel.Inbox kind d up queue) (hlink : link.descriptor = d)
    (hup : up m.kernel) {r : Except Failure Bool} (h : (isReady link).run m = (r, m')) :
    Machine.Takes kind up queue [] m m' ∧ ∃ ready, r = .ok ready := by
  subst hlink
  injection h with hr hm
  subst hr hm
  obtain ⟨hup', hleaves⟩ := hK.ready hup rfl
  exact ⟨⟨hup', hleaves⟩, _, rfl⟩

/-- A run of looking how long the next message is. -/
theorem takes_nextLength (hK : Kernel.Inbox kind d up queue) (hup : up m.kernel)
    {r : Except Failure Nat}
    (h : (Act.call (Kernel.nextLength d) fun e => (⟨.read, .system e⟩ : SocketError)).run m
      = (r, m')) : Machine.Takes kind up queue [] m m' := by
  obtain ⟨-, hkernel, -⟩ := Act.run_call h
  have hlooked : Kernel.nextLength d m.kernel
      = ((Kernel.nextLength d m.kernel).1, m'.kernel) := Prod.ext rfl hkernel.symm
  obtain ⟨hup', hleaves⟩ := hK.nextLength hup hlooked
  exact ⟨hup', hleaves⟩

end Socket

/-- A run of a call that sends. -/
theorem Act.takes_send (hK : Kernel.Inbox kind d up queue) (hup : up m.kernel)
    {octets : List UInt8} {flags : Nat} {pass : Option OpenFile} {r : Except Failure Nat}
    (h : (Act.call (Kernel.send d octets flags pass) fun e =>
      (⟨.write, .system e⟩ : SocketError)).run m = (r, m')) :
    ∃ lost, Machine.Takes kind up queue lost m m'
      ∧ (lost = [] ∨ kind = .datagram
          ∧ r = .error (.socket ⟨.write, .system .connectionRefused⟩))
      ∧ ∀ failure, r = .error failure → ∃ errno, failure = .socket ⟨.write, .system errno⟩ := by
  obtain ⟨-, ⟨errno, hrefuse, rfl⟩ | ⟨n, hsend, rfl⟩⟩ := Act.run_call_cases h
  · obtain ⟨hup', lost, hleaves, hcases⟩ := hK.send hup hrefuse
    refine ⟨lost, ⟨hup', hleaves⟩, ?_, fun failure hfailure => ⟨errno, ?_⟩⟩
    · rcases hcases with hnone | ⟨hkind, he⟩
      · exact .inl hnone
      · injection he with he
        exact .inr ⟨hkind, by rw [he]⟩
    · injection hfailure with hfailure
      exact hfailure.symm
  · obtain ⟨hup', lost, hleaves, hcases⟩ := hK.send hup hsend
    obtain rfl : lost = [] := by simpa using hcases
    exact ⟨[], ⟨hup', hleaves⟩, .inl rfl, by simp⟩

/-- A run of a reply. It fails only with the error of a call that sends. -/
theorem Socket.takes_reply {s : Socket} (hK : Kernel.Inbox kind d up queue)
    (hlink : link.descriptor = d) (hup : up m.kernel) {r : Except Failure Unit}
    (h : (s.reply link).run m = (r, m')) :
    ∃ lost, Machine.Takes kind up queue lost m m'
      ∧ (lost = [] ∨ kind = .datagram
          ∧ r = .error (.socket ⟨.write, .system .connectionRefused⟩))
      ∧ ∀ failure, r = .error failure → s.acknowledge = true
          ∧ ∃ errno, failure = .socket ⟨.write, .system errno⟩ := by
  subst hlink
  unfold reply at h
  split at h
  · rename_i hack
    rcases run_bind h with ⟨n, m₁, hcall, hreturn⟩ | ⟨failure, hcall, rfl⟩
    · injection hreturn with hr hm
      subst hr hm
      obtain ⟨lost, htakes, hcases, -⟩ := Act.takes_send hK hup hcall
      obtain rfl : lost = [] := by simpa using hcases
      exact ⟨[], htakes, .inl rfl, by simp⟩
    · obtain ⟨lost, htakes, hcases, hsystem⟩ := Act.takes_send hK hup hcall
      refine ⟨lost, htakes, hcases.imp_right fun ⟨hkind, he⟩ => ⟨hkind, ?_⟩,
        fun failure' he => ⟨hack, hsystem failure' ?_⟩⟩
      · injection he with he
        rw [he]
      · injection he with he
        rw [he]
  · injection h with hr hm
    subst hr hm
    exact ⟨[], Machine.takes_of_kernel rfl hup, .inl rfl, by simp⟩

end

end PacedNet
