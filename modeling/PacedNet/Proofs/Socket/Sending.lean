import PacedNet.Proofs.Socket.Acting
import PacedNet.Socket.Send

/-!
# What a transfer puts on the wire

A stream's transfer is a sequence of calls. Each offers octets from where the kernel
stopped taking them, whatever part of the last chunk it took and whatever the quota
granted (`Carries`). So what the kernel has taken is always a beginning of the wire,
and all of it when the transfer succeeds (`stream_spec`).

The kernel is any that takes something of whatever it takes from at all.
-/

namespace PacedNet

/-- One call that sends, and its answer. -/
structure SendCall where
  descriptor : Descriptor
  octets : List UInt8
  flags : Nat
  pass : Option OpenFile
  answer : Except Errno Nat

/-- The octets that the kernel took. -/
def SendCall.taken (c : SendCall) : List UInt8 :=
  match c.answer with
  | .ok n => c.octets.take n
  | .error _ => []

/-- All octets that the kernel took, call by call. -/
def takenOf (calls : List SendCall) : List UInt8 := calls.flatMap SendCall.taken

variable {K : Type}

/-- A kernel that sends takes something of what it is offered, and no more. -/
def Kernel.TakesSome (K : Type) [Kernel K] : Prop :=
  ∀ (d : Descriptor) (octets : List UInt8) (flags : Nat) (pass : Option OpenFile) (k : K) (n : Nat),
    octets ≠ [] → (Kernel.send d octets flags pass k).1 = .ok n → 0 < n ∧ n ≤ octets.length

/-- Calls that lead from one state of a kernel to another. -/
inductive Made [Kernel K] : K → List SendCall → K → Prop where
  | nil (k : K) : Made k [] k
  | cons {k k' : K} {c : SendCall} {calls : List SendCall} :
      (Kernel.send c.descriptor c.octets c.flags c.pass k).1 = c.answer →
      Made (Kernel.send c.descriptor c.octets c.flags c.pass k).2 calls k' →
      Made k (c :: calls) k'

/-- Calls that carry a beginning of a wire. -/
structure Carries (d : Descriptor) (flags : Nat) (pass : Option OpenFile) (wire : List UInt8)
    (calls : List SendCall) : Prop where
  fit : takenOf calls <+: wire
  /-- No call is in vain. -/
  few : calls.length ≤ wire.length
  /-- A call offers octets from where the calls before it ended. -/
  offers : ∀ i c, calls[i]? = some c →
    c.octets ≠ [] ∧ c.octets <+: wire.drop (takenOf (calls.take i)).length
  /-- A descriptor rides on the first call and on no other. -/
  rides : ∀ i c, calls[i]? = some c → c.pass = if i = 0 then pass else none
  made : ∀ c ∈ calls, c.descriptor = d ∧ c.flags = flags ||| noSignal

namespace Transfer

variable {d : Descriptor} {flags sent : Nat} {pass : Option OpenFile} {wire chunk : List UInt8}
  {calls : List SendCall} {e : Errno}

theorem carries_nil : Carries d flags pass wire [] :=
  ⟨List.nil_prefix, Nat.zero_le _, by simp, by simp, by simp⟩

/-- A call that fails takes nothing, and is the last. -/
theorem carries_error (hne : chunk ≠ []) (hpre : chunk <+: wire) :
    Carries d flags pass wire [⟨d, chunk, flags ||| noSignal, pass, .error e⟩] := by
  refine ⟨by simp [takenOf, SendCall.taken], ?_, fun i c hc => ?_, fun i c hc => ?_, by simp⟩
  · have hwire : wire ≠ [] := fun he => hne (by rw [he] at hpre; exact List.prefix_nil.mp hpre)
    exact List.length_pos_iff.mpr hwire
  · cases i with
    | zero =>
        obtain rfl : _ = c := by simpa using hc
        exact ⟨hne, by simpa [takenOf] using hpre⟩
    | succ i => exact absurd hc (by simp)
  · cases i with
    | zero =>
        obtain rfl : _ = c := by simpa using hc
        rfl
    | succ i => exact absurd hc (by simp)

theorem takenOf_cons (hpre : chunk <+: wire) (hle : sent ≤ chunk.length) (calls : List SendCall) :
    takenOf (⟨d, chunk, flags, pass, .ok sent⟩ :: calls) = wire.take sent ++ takenOf calls := by
  obtain ⟨more, rfl⟩ := hpre
  rw [List.take_append_of_le_length hle]
  rfl

/-- A call that takes some of a chunk, followed by calls for the rest. -/
theorem carries_cons (hne : chunk ≠ []) (hpre : chunk <+: wire) (hpos : 0 < sent)
    (hle : sent ≤ chunk.length) (h : Carries d flags none (wire.drop sent) calls) :
    Carries d flags pass wire (⟨d, chunk, flags ||| noSignal, pass, .ok sent⟩ :: calls) := by
  refine ⟨?_, ?_, fun i c hc => ?_, fun i c hc => ?_, fun c hc => ?_⟩
  · obtain ⟨rest, hrest⟩ := h.fit
    refine ⟨rest, ?_⟩
    rw [takenOf_cons hpre hle, List.append_assoc, hrest, List.take_append_drop]
  · have := h.few
    have := hpre.length_le
    simp only [List.length_drop, List.length_cons] at *
    omega
  · cases i with
    | zero =>
        obtain rfl : _ = c := by simpa using hc
        exact ⟨hne, by simpa [takenOf] using hpre⟩
    | succ i =>
        obtain ⟨hne', hpre'⟩ := h.offers i c (by simpa using hc)
        refine ⟨hne', ?_⟩
        have hlen : (takenOf ((⟨d, chunk, flags ||| noSignal, pass, .ok sent⟩ :: calls).take
            (i + 1))).length = sent + (takenOf (calls.take i)).length := by
          simp [takenOf, SendCall.taken, hle]
        rw [hlen, ← List.drop_drop]
        exact hpre'
  · cases i with
    | zero =>
        obtain rfl : _ = c := by simpa using hc
        rfl
    | succ i => simpa using h.rides i c (by simpa using hc)
  · rcases List.mem_cons.mp hc with rfl | hc
    · exact ⟨rfl, rfl⟩
    · exact h.made c hc

variable {link : Link} {m m' : Machine K}

theorem run_checkpoint {r : Except Failure Unit} (h : (checkpoint link).run m = (r, m')) :
    m' = m := by
  unfold checkpoint at h
  rw [run_get_bind] at h
  split at h <;> (injection h with _ hm; exact hm.symm)

theorem answer_of_ok {α : Type} {answer : Except Errno α} {toError : Errno → Failure} {a : α}
    (h : .ok a = answer.mapError toError) : answer = .ok a := by
  cases answer with
  | ok b => injection h with h; rw [h]
  | error e => exact absurd h (by simp [Except.mapError])

theorem answer_of_error {α : Type} {answer : Except Errno α} {toError : Errno → Failure}
    {f : Failure} (h : .error f = answer.mapError toError) : ∃ e, answer = .error e := by
  cases answer with
  | ok b => exact absurd h (by simp [Except.mapError])
  | error e => exact ⟨e, rfl⟩

variable [Kernel K]

/-- **One round of a stream.** A round that fails made no call, or one that took nothing; one that
succeeds made a call which took some of what it offered. -/
theorem round_spec (hK : Kernel.TakesSome K) {rest : List UInt8} {r : Except Failure Nat}
    (hne : rest ≠ []) (hflows : m.Flows link.quota)
    (h : (round link flags pass rest).run m = (r, m')) :
    m.Moves m'
      ∧ (∀ e, r = .error e → ∃ calls, Made m.kernel calls m'.kernel
          ∧ Carries link.descriptor flags pass rest calls)
      ∧ ∀ sent, r = .ok sent → ∃ chunk, chunk ≠ [] ∧ chunk <+: rest
          ∧ 0 < sent ∧ sent ≤ chunk.length
          ∧ Kernel.send link.descriptor chunk (flags ||| noSignal) pass m.kernel
              = (.ok sent, m'.kernel) := by
  unfold round at h
  rcases run_bind h with ⟨⟨⟩, m₁, hcheck, h₁⟩ | ⟨e, hcheck, rfl⟩
  · obtain rfl := run_checkpoint hcheck
    rcases run_bind h₁ with ⟨grant, m₂, hpace, hsend⟩ | ⟨e, hpace, rfl⟩
    · obtain ⟨hmoves, hkernel, hgrant⟩ := Act.run_pace hpace
      have hpos : 0 < grant := (hgrant grant rfl).2 hflows (List.length_pos_iff.mpr hne)
      -- a grant is never nothing, so the call offers something
      have hchunk : rest.take grant ≠ [] := by
        rw [Ne, List.take_eq_nil_iff, not_or]
        exact ⟨by omega, hne⟩
      have hpre : rest.take grant <+: rest := List.take_prefix _ _
      obtain ⟨hcall, hkernel', hanswer⟩ := Act.run_call hsend
      rw [hkernel] at hkernel' hanswer
      refine ⟨hmoves.trans hcall, fun e he => ?_, fun sent hsent => ?_⟩
      · obtain ⟨errno, herror⟩ := answer_of_error (he.symm.trans hanswer)
        exact ⟨_, .cons herror (hkernel' ▸ .nil _), carries_error hchunk hpre⟩
      · have hok := answer_of_ok (hsent.symm.trans hanswer)
        obtain ⟨hsome, hle⟩ := hK _ _ _ _ _ _ hchunk hok
        exact ⟨_, hchunk, hpre, hsome, hle, Prod.ext hok hkernel'.symm⟩
    · obtain ⟨hmoves, hkernel, -⟩ := Act.run_pace hpace
      exact ⟨hmoves, fun _ _ => ⟨[], hkernel ▸ .nil _, carries_nil⟩, by simp⟩
  · obtain rfl := run_checkpoint hcheck
    exact ⟨.refl _, fun _ _ => ⟨[], .nil _, carries_nil⟩, by simp⟩

/-- **A stream's transfer**: its calls carry a beginning of what is to be sent, and all of it if the
transfer succeeds. -/
theorem stream_spec (hK : Kernel.TakesSome K) {report : SendReport} {rest : List UInt8}
    {r : Except Failure SendReport} (hflows : m.Flows link.quota)
    (h : (stream link flags pass report rest).run m = (r, m')) :
    m.Moves m' ∧ ∃ calls, Made m.kernel calls m'.kernel
      ∧ Carries link.descriptor flags pass rest calls
      ∧ ∀ out, r = .ok out → takenOf calls = rest
          ∧ out = { report with wireBytes := report.wireBytes + rest.length
                                chunks := report.chunks + calls.length } := by
  -- each round leaves less to send
  induction hn : rest.length using Nat.strongRecOn generalizing pass report rest m with
  | ind n ih =>
      subst hn
      cases rest with
      | nil =>
          rw [stream] at h
          injection h with hr hm
          subst hr hm
          refine ⟨.refl m, [], .nil _, carries_nil, fun out hout => ?_⟩
          injection hout with hout
          exact ⟨rfl, hout.symm⟩
      | cons b tail =>
          rw [stream] at h
          rcases run_bind h with ⟨sent, m₁, hround, h₁⟩ | ⟨e, hround, rfl⟩
          · obtain ⟨hmoves, -, hsome⟩ := round_spec hK (by simp) hflows hround
            obtain ⟨chunk, hne, hpre, hpos, hle, hsend⟩ := hsome sent rfl
            have hsent : sent ≤ (b :: tail).length := hle.trans hpre.length_le
            rw [if_neg (by omega)] at h₁
            obtain ⟨hrest, calls, hmade, hcarries, hout⟩ :=
              ih _ (by rw [List.length_drop]; simp only [List.length_cons]; omega)
                (hmoves.flows hflows) h₁ rfl
            refine ⟨hmoves.trans hrest, _, .cons (congrArg Prod.fst hsend) ?_,
              carries_cons hne hpre hpos hle hcarries, fun out ho => ?_⟩
            · rw [hsend]
              exact hmade
            · obtain ⟨htaken, rfl⟩ := hout out ho
              refine ⟨(takenOf_cons hpre hle calls).trans ?_, ?_⟩
              · rw [htaken, List.take_append_drop]
              · simp only [List.length_drop, List.length_cons, SendReport.mk.injEq, true_and]
                  at hsent ⊢
                omega
          · obtain ⟨hmoves, hfail, -⟩ := round_spec hK (by simp) hflows hround
            obtain ⟨calls, hmade, hcarries⟩ := hfail e rfl
            exact ⟨hmoves, calls, hmade, hcarries, by simp⟩

/-- A transfer on a stream that awaits no reply. -/
theorem run_spec (hK : Kernel.TakesSome K) {parcel : Parcel} {r : Except Failure SendReport}
    (hkind : link.kind = .stream) (hflows : m.Flows link.quota)
    (h : (run link parcel false).run m = (r, m')) :
    m.Moves m' ∧ ∃ calls, Made m.kernel calls m'.kernel
      ∧ Carries link.descriptor parcel.flags parcel.pass (streamWire parcel) calls
      ∧ ∀ out, r = .ok out → takenOf calls = streamWire parcel
          ∧ out = ⟨parcel.payloadBytes, (streamWire parcel).length, calls.length⟩ := by
  unfold run at h
  rw [hkind] at h
  have hstream : (stream link parcel.flags parcel.pass ⟨parcel.payloadBytes, 0, 0⟩
      (streamWire parcel)).run m = (r, m') := by
    rcases run_bind h with ⟨report, m₁, hstream, hreturn⟩ | ⟨e, hstream, rfl⟩
    · injection hreturn with hr hm
      rw [hstream, ← hr, ← hm]
    · exact hstream
  simpa using stream_spec hK hflows hstream

end Transfer

end PacedNet
