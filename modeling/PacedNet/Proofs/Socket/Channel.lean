import PacedNet.Proofs.Socket.Sending
import PacedNet.Socket.Receive

/-!
# A connection with two directions

A stream has a queue in each direction. A call of one end adds to the queue that leads away from
it or takes from the one that leads to it, and leaves the other direction alone
(`Kernel.Channel`). A call that fails adds and takes nothing. From this follows what each part of
a transfer and of a receive does to both queues.
-/

namespace PacedNet

variable {K : Type}

/-- While a connection is up, `queue` is what lies on the way from `a` to `b`, and no call that
adds to it or takes from it touches `other`. -/
structure Kernel.Channel [Kernel K] (a b : Descriptor) (up : K → Prop)
    (queue other : K → List UInt8) : Prop where
  /-- What is taken of a send goes to the end. -/
  send : ∀ {octets : List UInt8} {flags : Nat} {pass : Option OpenFile} {answer : Except Errno Nat}
    {k k' : K}, up k → octets ≠ [] → Kernel.send a octets flags pass k = (answer, k') →
    up k' ∧ other k' = other k
      ∧ queue k' = queue k ++ SendCall.taken ⟨a, octets, flags, pass, answer⟩
  /-- What is received comes from the front; it is nothing, with room for something, only where
  nothing is. -/
  receive : ∀ {room : Nat} {got : Incoming} {k k' : K}, up k →
    Kernel.receive b room k = (.ok got, k') →
    up k' ∧ other k' = other k ∧ queue k = got.octets ++ queue k'
      ∧ (0 < room → got.octets = [] → queue k = [])
  /-- A receive that fails takes nothing. -/
  refuse : ∀ {room : Nat} {e : Errno} {k k' : K}, up k →
    Kernel.receive b room k = (.error e, k') → up k' ∧ other k' = other k ∧ queue k' = queue k
  /-- Whether something lies there can be seen. -/
  ready : ∀ {answer : Bool} {k k' : K}, up k → Kernel.ready b k = (answer, k') →
    up k' ∧ other k' = other k ∧ queue k' = queue k ∧ (answer = false → queue k = [])
  /-- All of the queue waits to be received. -/
  waiting : ∀ {k : K}, up k → (queue k).length ≤ Kernel.waiting b k

/-- A connection between `a` and `b`, with a queue in each direction. -/
structure Kernel.Duplex [Kernel K] (a b : Descriptor) (up : K → Prop)
    (queue back : K → List UInt8) : Prop where
  there : Kernel.Channel a b up queue back
  back : Kernel.Channel b a up back queue

section

variable [Kernel K] {a b : Descriptor} {up : K → Prop} {queue other : K → List UInt8}
  {m m' : Machine K} {link : Link}

/-- A run of a call that receives. -/
theorem Socket.run_receiveCall (hK : Kernel.Channel a b up queue other) (hup : up m.kernel)
    {room : Nat} {r : Except Failure Incoming} (h : (receiveCall b room).run m = (r, m')) :
    m.Moves m' ∧ up m'.kernel ∧ other m'.kernel = other m.kernel
      ∧ ((∃ e, r = .error e) ∧ queue m'.kernel = queue m.kernel
        ∨ ∃ got, r = .ok got ∧ queue m.kernel = got.octets ++ queue m'.kernel
            ∧ (0 < room → got.octets = [] → queue m.kernel = [])) := by
  unfold receiveCall at h
  obtain ⟨hmoves, ⟨errno, hrefuse, rfl⟩ | ⟨got, hreceive, rfl⟩⟩ := Act.run_call_cases h
  · obtain ⟨hup', hother, hqueue⟩ := hK.refuse hup hrefuse
    exact ⟨hmoves, hup', hother, Or.inl ⟨⟨_, rfl⟩, hqueue⟩⟩
  · obtain ⟨hup', hother, hqueue, hempty⟩ := hK.receive hup hreceive
    exact ⟨hmoves, hup', hother, Or.inr ⟨got, rfl, hqueue, hempty⟩⟩

/-- A run of reading a chunk. -/
theorem Socket.run_readChunk {s : Socket} (hK : Kernel.Channel a b up queue other)
    (hlink : link.descriptor = b) (hchunk : 0 < s.readChunk) (hproper : m.Proper)
    (hup : up m.kernel) {r : Except Failure Incoming}
    (h : (s.readChunkOf link).run m = (r, m')) :
    m.Moves m' ∧ up m'.kernel ∧ other m'.kernel = other m.kernel
      ∧ ((∃ e, r = .error e) ∧ queue m'.kernel = queue m.kernel
        ∨ ∃ got, r = .ok got ∧ queue m.kernel = got.octets ++ queue m'.kernel
            ∧ (got.octets = [] → queue m.kernel = [])) := by
  subst hlink
  unfold readChunkOf at h
  rcases run_bind h with ⟨room, m₁, hpace, hreceive⟩ | ⟨e, hpace, rfl⟩
  · obtain ⟨hmoves, hkernel, hgrant⟩ := Act.run_pace hpace
    have hroom : 0 < room := (hgrant room rfl).2 (Act.flows_of_pace hproper hpace) hchunk
    obtain ⟨hmoves', hup', hother, hcases⟩ := run_receiveCall hK (hkernel ▸ hup) hreceive
    rw [hkernel] at hother hcases
    refine ⟨hmoves.trans hmoves', hup', hother, ?_⟩
    rcases hcases with hfail | ⟨got, hr, hqueue, hempty⟩
    · exact Or.inl hfail
    · exact Or.inr ⟨got, hr, hqueue, hempty hroom⟩
  · obtain ⟨hmoves, hkernel, -⟩ := Act.run_pace hpace
    rw [hkernel]
    exact ⟨hmoves, hup, rfl, Or.inl ⟨⟨e, rfl⟩, rfl⟩⟩

/-- A run of looking whether something is there. -/
theorem Socket.run_look (hK : Kernel.Channel a b up queue other) (hlink : link.descriptor = b)
    (hup : up m.kernel) {r : Except Failure Bool} (h : (isReady link).run m = (r, m')) :
    m.Moves m' ∧ up m'.kernel ∧ other m'.kernel = other m.kernel
      ∧ queue m'.kernel = queue m.kernel
      ∧ ∃ ready, r = .ok ready ∧ (ready = false → queue m.kernel = []) := by
  subst hlink
  injection h with hr hm
  subst hr hm
  obtain ⟨hup', hother, hqueue, hnone⟩ := hK.ready hup rfl
  exact ⟨m.moves_kernel _, hup', hother, hqueue, _, rfl, hnone⟩

/-- A reply is at most one call, which sends an octet. -/
theorem Socket.call_of_reply {s : Socket} {r : Except Failure Unit}
    (h : (s.reply link).run m = (r, m')) :
    m' = m ∨ m.Moves m' ∧ ∃ answer,
      Kernel.send link.descriptor [acknowledgement] noSignal none m.kernel
        = (answer, m'.kernel) := by
  unfold reply at h
  split at h
  · right
    rcases run_bind h with ⟨n, m₁, hcall, hreturn⟩ | ⟨e, hcall, -⟩
    · injection hreturn with _ hm
      subst hm
      obtain ⟨hmoves, hkernel, -⟩ := Act.run_call hcall
      exact ⟨hmoves, _, Prod.ext rfl hkernel.symm⟩
    · obtain ⟨hmoves, hkernel, -⟩ := Act.run_call hcall
      exact ⟨hmoves, _, Prod.ext rfl hkernel.symm⟩
  · injection h with _ hm
    exact .inl hm.symm

/-- A run of a reply: what it adds goes the other way. -/
theorem Socket.run_reply {s : Socket} (hK : Kernel.Channel b a up other queue)
    (hlink : link.descriptor = b) (hup : up m.kernel) {r : Except Failure Unit}
    (h : (s.reply link).run m = (r, m')) :
    m.Moves m' ∧ up m'.kernel ∧ queue m'.kernel = queue m.kernel := by
  subst hlink
  rcases call_of_reply h with rfl | ⟨hmoves, answer, hsend⟩
  · exact ⟨.refl m', hup, rfl⟩
  · obtain ⟨hup', hother, -⟩ := hK.send hup (by simp) hsend
    exact ⟨hmoves, hup', hother⟩

namespace Transfer

/-- A run of a stream's round: some of what is left goes on its way, or nothing. -/
theorem run_round (hK : Kernel.Channel a b up queue other) (hT : Kernel.TakesSome K)
    (hlink : link.descriptor = a) (hproper : m.Proper) (hup : up m.kernel) {flags : Nat}
    {pass : Option OpenFile} {rest : List UInt8} (hne : rest ≠ []) {r : Except Failure Nat}
    (h : (round link flags pass rest).run m = (r, m')) :
    m.Moves m' ∧ up m'.kernel ∧ other m'.kernel = other m.kernel
      ∧ ((∃ e, r = .error e) ∧ queue m'.kernel = queue m.kernel
        ∨ ∃ sent, r = .ok sent ∧ 0 < sent ∧ sent ≤ rest.length
            ∧ queue m'.kernel = queue m.kernel ++ rest.take sent) := by
  subst hlink
  unfold round at h
  rcases run_bind h with ⟨⟨⟩, m₁, hcheck, h₁⟩ | ⟨e, hcheck, rfl⟩
  · obtain rfl := run_checkpoint hcheck
    rcases run_bind h₁ with ⟨grant, m₂, hpace, hsend⟩ | ⟨e, hpace, rfl⟩
    · obtain ⟨hmoves, hkernel, hgrant⟩ := Act.run_pace hpace
      obtain ⟨hle, hpos⟩ := hgrant grant rfl
      have hgranted : 0 < grant :=
        hpos (Act.flows_of_pace hproper hpace) (List.length_pos_iff.mpr hne)
      have hchunk : rest.take grant ≠ [] := by
        rw [Ne, List.take_eq_nil_iff, not_or]
        exact ⟨by omega, hne⟩
      unfold send at hsend
      obtain ⟨hcall, ⟨errno, hrefuse, rfl⟩ | ⟨sent, hoffer, rfl⟩⟩ := Act.run_call_cases hsend
      · rw [hkernel] at hrefuse
        obtain ⟨hup', hother, hqueue⟩ := hK.send hup hchunk hrefuse
        exact ⟨hmoves.trans hcall, hup', hother,
          Or.inl ⟨⟨_, rfl⟩, hqueue.trans (List.append_nil _)⟩⟩
      · rw [hkernel] at hoffer
        obtain ⟨hup', hother, hqueue⟩ := hK.send hup hchunk hoffer
        obtain ⟨hsome, hfits⟩ := hT _ _ _ _ _ _ hchunk (congrArg Prod.fst hoffer)
        rw [List.length_take] at hfits
        have hbelow : sent ≤ grant := hfits.trans (Nat.min_le_left _ _)
        refine ⟨hmoves.trans hcall, hup', hother,
          Or.inr ⟨sent, rfl, hsome, hbelow.trans hle, hqueue.trans ?_⟩⟩
        show _ ++ (rest.take grant).take sent = _
        rw [List.take_take, Nat.min_eq_left hbelow]
    · obtain ⟨hmoves, hkernel, -⟩ := Act.run_pace hpace
      rw [hkernel]
      exact ⟨hmoves, hup, rfl, Or.inl ⟨⟨e, rfl⟩, rfl⟩⟩
  · obtain rfl := run_checkpoint hcheck
    exact ⟨.refl _, hup, rfl, Or.inl ⟨⟨e, rfl⟩, rfl⟩⟩

/-- Waiting for a reply is one call, which receives an octet. -/
theorem call_of_awaitReply {r : Except Failure Unit} (h : (awaitReply link).run m = (r, m')) :
    m.Moves m' ∧ ∃ answer, Kernel.receive link.descriptor 1 m.kernel = (answer, m'.kernel) := by
  unfold awaitReply at h
  rcases run_bind h with ⟨got, m₁, hcall, hrest⟩ | ⟨e, hcall, -⟩
  · have hsame : m' = m₁ := by
      split at hrest
      · injection hrest with _ hm
        exact hm.symm
      · split at hrest <;> (injection hrest with _ hm; exact hm.symm)
    subst hsame
    obtain ⟨hmoves, hkernel, -⟩ := Act.run_call hcall
    exact ⟨hmoves, _, Prod.ext rfl hkernel.symm⟩
  · obtain ⟨hmoves, hkernel, -⟩ := Act.run_call hcall
    exact ⟨hmoves, _, Prod.ext rfl hkernel.symm⟩

/-- A run of waiting for a reply: it succeeds only where one lay on the way. -/
theorem run_awaitReply (hK : Kernel.Channel b a up other queue) (hlink : link.descriptor = a)
    (hup : up m.kernel) {r : Except Failure Unit} (h : (awaitReply link).run m = (r, m')) :
    m.Moves m' ∧ up m'.kernel ∧ queue m'.kernel = queue m.kernel
      ∧ (other m.kernel = [] → other m'.kernel = [] ∧ ∃ e, r = .error e) := by
  subst hlink
  unfold awaitReply at h
  rcases run_bind h with ⟨reply, m₁, hcall, hrest⟩ | ⟨e, hcall, rfl⟩
  · obtain ⟨hmoves, hup', hother, hcases⟩ := Socket.run_receiveCall hK hup hcall
    obtain ⟨e, he⟩ | ⟨got, hgot, hqueue, -⟩ := hcases.imp And.left id
    · exact absurd he (by simp)
    · injection hgot with hgot
      subst hgot
      split at hrest
      · injection hrest with hr hm
        subst hr hm
        refine ⟨hmoves, hup', hother, fun hnil => ?_⟩
        rw [hnil] at hqueue
        exact ⟨(List.append_eq_nil_iff.mp hqueue.symm).2, _, rfl⟩
      · rename_i octet octets hsome
        have hm : m' = m₁ := by
          split at hrest <;> (injection hrest with _ hm; exact hm.symm)
        subst hm
        refine ⟨hmoves, hup', hother, fun hnil => ?_⟩
        rw [hnil, hsome] at hqueue
        exact absurd hqueue (by simp)
  · obtain ⟨hmoves, hup', hother, hcases⟩ := Socket.run_receiveCall hK hup hcall
    refine ⟨hmoves, hup', hother, fun hnil => ?_⟩
    obtain ⟨-, hsame⟩ | ⟨got, hgot, -⟩ := hcases
    · exact ⟨hsame.trans hnil, e, rfl⟩
    · exact absurd hgot (by simp)

end Transfer

end

end PacedNet
