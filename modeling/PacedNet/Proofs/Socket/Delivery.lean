import PacedNet.Proofs.Host.Streaming
import PacedNet.Proofs.Socket.Channel
import PacedNet.Proofs.Socket.Tracing

/-!
# What a send delivers

On any kernel that takes something of what it is offered, a send of a stream's socket
makes calls that carry a beginning of the payload, and all of it if it succeeds
(`send_delivers`). No call is in vain, so there are no more of them than octets.
-/

namespace PacedNet

variable {K : Type}

/-- What a payload is on a stream: a descriptor that would go alone rides on a zero. -/
def Payload.carried (p : Payload) (pass : Option OpenFile) : List UInt8 :=
  if p.encode = [] ∧ pass ≠ none then [0] else p.encode

theorem streamWire_parcel (p : Payload) (options : SendOptions) :
    Transfer.streamWire (p.parcel options) = p.carried options.pass := by
  unfold Transfer.streamWire Payload.carried Payload.parcel
  cases options.pass <;> cases p.encode <;> simp

/-- A connected stream. -/
def Socket.endOf (d : Descriptor) (quota : Option QuotaId) : Socket where
  descriptor := some d
  family := .unix
  kind := .stream
  state := .connected
  ownEndpoint := none
  peerEndpoint := none
  file := none
  quota := quota
  acknowledge := false
  readChunk := defaultReadChunk
  number := d
  pending := []

/-- A connected stream on which acknowledgement is on. -/
def Socket.answeringEnd (d : Descriptor) : Socket :=
  { Socket.endOf d none with acknowledge := true }

/-- A socket that may send has a link. -/
theorem Socket.writer_eq {s : Socket} {d : Descriptor} (hd : s.descriptor = some d)
    (hsend : s.state.canSend = true) : s.writer = .ok ⟨d, s.quota, s.number, s.kind⟩ := by
  unfold Socket.writer Socket.link
  rw [hd]
  exact if_pos hsend

/-- A send of a socket that may send is a transfer. -/
theorem Socket.run_send [Kernel K] {s : Socket} {link : Link} (h : s.writer = .ok link)
    (p : Payload) (options : SendOptions) (m : Machine K) : (s.send p options).run m
      = (Transfer.run link (p.parcel options) s.acknowledge).run m := by
  unfold Socket.send
  rw [h]
  rfl

/-- Waiting for a reply sends nothing. -/
theorem Transfer.sends_awaitReply [Kernel K] {link : Link} {m m' : Machine (Traced K)}
    {r : Except Failure Unit} (h : (awaitReply link).run m = (r, m')) :
    m'.kernel.sends = m.kernel.sends := by
  obtain ⟨-, answer, hreceive⟩ := call_of_awaitReply h
  have hsends : (Kernel.receive link.descriptor 1 m.kernel).2.sends = m.kernel.sends :=
    Traced.sends_receive _ _ _
  rwa [hreceive] at hsends

/-- What comes after a transfer sends nothing, and leaves its report as it is. -/
theorem Transfer.run_reply [Kernel K] {link : Link} {acknowledge : Bool} {report : SendReport}
    {m m' : Machine (Traced K)} {r : Except Failure SendReport}
    (h : (do if acknowledge then awaitReply link
             return report : Act (Traced K) SendReport).run m = (r, m')) :
    m'.kernel.sends = m.kernel.sends ∧ ∀ out, r = .ok out → out = report := by
  cases acknowledge with
  | false =>
      injection h with hr hm
      subst hr hm
      exact ⟨rfl, fun out ho => by injection ho with ho; exact ho.symm⟩
  | true =>
      rcases run_bind h with ⟨⟨⟩, m₁, hawait, hreturn⟩ | ⟨e, hawait, rfl⟩
      · injection hreturn with hr hm
        subst hr hm
        exact ⟨sends_awaitReply hawait, fun out ho => by injection ho with ho; exact ho.symm⟩
      · exact ⟨sends_awaitReply hawait, by simp⟩

/-- **A send of a stream's socket.** Whatever the kernel takes of each chunk and whatever the quota
grants, the send ends, and the calls made carry a beginning of the payload. If it succeeds they
carry all of it, and the report counts what was taken and the calls. -/
theorem Socket.send_delivers [Kernel K] (hK : Kernel.TakesSome K) {s : Socket} {d : Descriptor}
    {m : Machine (Traced K)} (hd : s.descriptor = some d) (hkind : s.kind = .stream)
    (hsend : s.state.canSend = true) (hflows : m.Flows s.quota) (p : Payload)
    (options : SendOptions) :
    ∃ r m' calls, (s.send p options).run m = (r, m')
      ∧ m'.kernel.sends = m.kernel.sends ++ calls
      ∧ Carries d options.flags options.pass (p.carried options.pass) calls
      ∧ ∀ report, r = .ok report → takenOf calls = p.carried options.pass
          ∧ report = ⟨p.length, (takenOf calls).length, calls.length⟩ := by
  cases h : (s.send p options).run m with
  | mk r m' =>
      rw [Socket.run_send (Socket.writer_eq hd hsend), hkind] at h
      unfold Transfer.run at h
      rcases run_bind h with ⟨report, m₁, hstream, hreply⟩ | ⟨e, hstream, rfl⟩
      · obtain ⟨-, calls, hmade, hcarries, hout⟩ :=
          Transfer.stream_spec (Traced.takesSome hK) hflows hstream
        rw [streamWire_parcel] at hcarries hout
        obtain ⟨htaken, hreport⟩ := hout report rfl
        obtain ⟨hsends, hsame⟩ := Transfer.run_reply hreply
        refine ⟨r, m', calls, rfl, hsends.trans (Traced.sends_of_made hmade), hcarries,
          fun out ho => ⟨htaken, ?_⟩⟩
        rw [hsame out ho, hreport, htaken]
        simp [Payload.parcel]
      · obtain ⟨-, calls, hmade, hcarries, -⟩ :=
          Transfer.stream_spec (Traced.takesSome hK) hflows hstream
        rw [streamWire_parcel] at hcarries
        exact ⟨_, m', calls, rfl, Traced.sends_of_made hmade, hcarries, by simp⟩

/-- Eight octets a second are a positive rate. -/
theorem Machine.flows_eight {m : Machine K} (h : m.quotas = [.unlimited 0 (.clamp 8)]) :
    m.Flows (some 0) := by
  intro id q hid hq
  obtain rfl : 0 = id := by injection hid
  rw [h] at hq
  obtain rfl : Quota.unlimited 0 (.clamp 8) = q := by injection hq
  have hrate : (Quota.unlimited 0 (.clamp 8)).rate = .finite false 8 := by decide +kernel
  rw [hrate]
  exact ⟨rfl, by norm_num⟩

/-- Two records and a descriptor on a stream that is paced to eight octets a second. -/
theorem Socket.send_delivers_paced :
    ∃ r m' calls, ((Socket.endOf 0 (some 0)).send (.records [[1, 2], [3]]) ⟨0, some 7⟩).run
        { Machine.start (⟨Host.pair, []⟩ : Traced Host) with quotas := [.unlimited 0 (.clamp 8)] }
          = (r, m')
      ∧ m'.kernel.sends = [] ++ calls
      ∧ Carries 0 0 (some 7) [1, 2, 30, 3] calls
      ∧ ∀ report, r = .ok report → takenOf calls = [1, 2, 30, 3]
          ∧ report = ⟨3, (takenOf calls).length, calls.length⟩ :=
  Socket.send_delivers Host.takesSome rfl rfl rfl (Machine.flows_eight rfl)
    (.records [[1, 2], [3]]) ⟨0, some 7⟩

end PacedNet
