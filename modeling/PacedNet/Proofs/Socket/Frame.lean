import PacedNet.Proofs.Socket.Acting
import PacedNet.Socket.Send

/-!
# What a transfer leaves alone

Whatever the kernel answers and whatever a quota grants, a transfer changes only the kernel, the
clock and buckets, and the only way for it to end other than by a report or an error of its socket
is a wait that its quota makes endless (`Act.IsPaced`). Both are read off its parts. What comes
before a transfer in the background, the copy of a descriptor, changes the kernel alone
(`Socket.prepare_frame`).
-/

namespace PacedNet

variable {K : Type} {quota : Option QuotaId}

/-- How an operation may fail that draws on a quota at most. -/
inductive Failure.OfPaced (quota : Option QuotaId) : Failure → Prop where
  | socket (error : SocketError) : OfPaced quota (.socket error)
  | endless : quota ≠ none → OfPaced quota (.fault .endlessWait)

/-- An operation that calls the kernel and draws on a quota, and does nothing else. -/
def Act.IsPaced {α : Type} (quota : Option QuotaId) (act : Act K α) : Prop :=
  ∀ ⦃m m' : Machine K⦄ ⦃r : Except Failure α⦄, act.run m = (r, m') →
    m.Moves m' ∧ ∀ failure, r = .error failure → failure.OfPaced quota

namespace Act

variable {α β : Type}

theorem isPaced_pure (a : α) : IsPaced quota (pure a : Act K α) := by
  intro m m' r h
  injection h with hr hm
  subst hr hm
  exact ⟨.refl m, by simp⟩

theorem isPaced_fail (stage : Stage) (cause : Cause) :
    IsPaced quota (fail stage cause : Act K α) := by
  intro m m' r h
  injection h with hr hm
  subst hr hm
  refine ⟨.refl m, fun failure hfailure => ?_⟩
  injection hfailure with hfailure
  exact hfailure ▸ .socket _

theorem isPaced_bind {act : Act K α} {f : α → Act K β} (hact : IsPaced quota act)
    (hf : ∀ a, IsPaced quota (f a)) : IsPaced quota (act >>= f) := by
  intro m m' r h
  rcases run_bind h with ⟨a, m₁, hfirst, hrest⟩ | ⟨e, hfirst, rfl⟩
  · obtain ⟨hmoves, -⟩ := hact hfirst
    obtain ⟨hmoves', hfailure⟩ := hf a hrest
    exact ⟨hmoves.trans hmoves', hfailure⟩
  · obtain ⟨hmoves, hfailure⟩ := hact hfirst
    refine ⟨hmoves, fun failure he => ?_⟩
    injection he with he
    exact hfailure failure (by rw [he])

theorem isPaced_call (f : K → Except Errno α × K) (toError : Errno → SocketError) :
    IsPaced quota (call f toError) := by
  intro m m' r h
  obtain ⟨hmoves, -, hr⟩ := run_call h
  refine ⟨hmoves, fun failure hfailure => ?_⟩
  rw [hr] at hfailure
  cases hanswer : (f m.kernel).1 with
  | ok a =>
      rw [hanswer] at hfailure
      exact absurd hfailure (by simp [Except.mapError])
  | error e =>
      rw [hanswer] at hfailure
      injection hfailure with hfailure
      exact hfailure ▸ .socket _

theorem isPaced_pace {stage : Stage} {bytes : Nat} {ask : Quota → Instant → Nat → Grant × Quota}
    (hask : ∀ q now n, (ask q now n).2.rate = q.rate) :
    IsPaced quota (pace (K := K) stage quota bytes ask) := by
  intro m m' r h
  refine ⟨(moves_pace hask h).1, fun failure hfailure => ?_⟩
  rcases run_pace_cases h with ⟨-, hok, -⟩ | ⟨id, q, hid, -, -, hgrant⟩
  · exact absurd (hfailure.symm.trans hok) (by simp)
  · rcases hgrant with ⟨-, hno⟩ | ⟨-, hno⟩ | ⟨n, wait, -, hok⟩
    · injection hfailure.symm.trans hno with hfailure
      exact hfailure ▸ .socket _
    · injection hfailure.symm.trans hno with hfailure
      exact hfailure ▸ .endless (by rw [hid]; simp)
    · exact absurd (hfailure.symm.trans hok) (by simp)

end Act

theorem Quota.rate_throttle (q : Quota) (now : Instant) (n : Nat) :
    (q.throttle now n).2.rate = q.rate := (q.throttle_spec now n).1

theorem Quota.rate_throttleExact (q : Quota) (now : Instant) (n : Nat) :
    (q.throttleExact now n).2.rate = q.rate := (q.reserve_spec now n).1

namespace Transfer

theorem isPaced_checkpoint (link : Link) : (checkpoint (K := K) link).IsPaced quota := by
  intro m m' r h
  unfold checkpoint at h
  rw [run_get_bind] at h
  split at h
  · exact Act.isPaced_fail _ _ h
  · exact Act.isPaced_pure _ h

variable [Kernel K]

theorem isPaced_send (link : Link) (octets : List UInt8) (flags : Nat) (pass : Option OpenFile) :
    (send (K := K) link octets flags pass).IsPaced quota := Act.isPaced_call _ _

theorem isPaced_round (link : Link) (flags : Nat) (pass : Option OpenFile) (rest : List UInt8) :
    (round (K := K) link flags pass rest).IsPaced link.quota :=
  Act.isPaced_bind (isPaced_checkpoint link) fun _ =>
    Act.isPaced_bind (Act.isPaced_pace Quota.rate_throttle) fun _ => isPaced_send link _ flags pass

theorem isPaced_stream (link : Link) (flags : Nat) (pass : Option OpenFile) (report : SendReport)
    (rest : List UInt8) : (stream (K := K) link flags pass report rest).IsPaced link.quota := by
  -- a round leaves less to send, unless it was the last
  induction hn : rest.length using Nat.strongRecOn generalizing pass report rest with
  | ind n ih =>
      subst hn
      cases rest with
      | nil =>
          rw [stream]
          exact Act.isPaced_pure report
      | cons b tail =>
          rw [stream]
          refine Act.isPaced_bind (isPaced_round link flags pass _) fun sent => ?_
          split
          · exact Act.isPaced_pure _
          · rename_i hsent
            have hless : ((b :: tail).drop sent).length < (b :: tail).length := by
              rw [List.length_drop, List.length_cons]
              omega
            dsimp only
            exact ih _ hless none _ _ rfl

theorem isPaced_datagram (link : Link) (parcel : Parcel) :
    (datagram (K := K) link parcel).IsPaced link.quota :=
  Act.isPaced_bind (isPaced_checkpoint link) fun _ =>
    Act.isPaced_bind (Act.isPaced_pace Quota.rate_throttleExact) fun _ =>
      Act.isPaced_bind (isPaced_send link _ _ _) fun _ => Act.isPaced_pure _

theorem isPaced_awaitReply (link : Link) : (awaitReply (K := K) link).IsPaced quota := by
  refine Act.isPaced_bind (Act.isPaced_call _ _) fun reply => ?_
  split
  · exact Act.isPaced_fail _ _
  · split
    · exact Act.isPaced_pure _
    · exact Act.isPaced_fail _ _

/-- **A transfer moves data and does nothing else.** -/
theorem isPaced_run (link : Link) (parcel : Parcel) (acknowledge : Bool) :
    (run (K := K) link parcel acknowledge).IsPaced link.quota := by
  have hreply : ∀ report, (do if acknowledge then awaitReply link
                              return report : Act K SendReport).IsPaced link.quota := by
    intro report
    split
    · exact Act.isPaced_bind (isPaced_awaitReply link) fun _ => Act.isPaced_pure _
    · exact Act.isPaced_pure _
  unfold run
  cases link.kind with
  | datagram => exact Act.isPaced_bind (isPaced_datagram link parcel) hreply
  | stream => exact Act.isPaced_bind (isPaced_stream link _ _ _ _) hreply

end Transfer

namespace Socket

variable [Kernel K] {s : Socket} {options : SendOptions} {m m' : Machine K}

/-- An asynchronous send of a socket that may not send asks for nothing. -/
theorem prepare_refused {e : SocketError} (h : s.writer = .error e) (options : SendOptions)
    (m : Machine K) : s.prepare options m = (.error e, m) := by
  unfold prepare
  rw [h]

/-- An asynchronous send that hands nothing over needs its link only. -/
theorem prepare_plain {link : Link} (h : s.writer = .ok link) (hpass : options.pass = none)
    (m : Machine K) : s.prepare options m = (.ok (link, none), m) := by
  unfold prepare
  rw [h, hpass]

/-- An asynchronous send that hands over a descriptor asks for a copy. -/
theorem prepare_copy {link : Link} {file copy : OpenFile} {kernel : K}
    (h : s.writer = .ok link) (hpass : options.pass = some file)
    (hcopy : Kernel.duplicate file m.kernel = (.ok copy, kernel)) :
    s.prepare options m = (.ok (link, some copy), { m with kernel }) := by
  unfold prepare
  rw [h, hpass]
  dsimp only
  rw [hcopy]

/-- Getting an asynchronous send ready only asks the kernel for a copy; its link is the socket's. -/
theorem prepare_frame {prepared : Except SocketError (Link × Option OpenFile)}
    (h : s.prepare options m = (prepared, m')) :
    m' = { m with kernel := m'.kernel }
      ∧ ∀ link pass, prepared = .ok (link, pass) → s.writer = .ok link := by
  cases hwriter : s.writer with
  | error e =>
      rw [prepare_refused hwriter] at h
      injection h with hp hm
      subst hp hm
      exact ⟨rfl, fun link pass hok => absurd hok (by simp)⟩
  | ok link =>
      cases hpass : options.pass with
      | none =>
          rw [prepare_plain hwriter hpass] at h
          injection h with hp hm
          subst hp hm
          refine ⟨rfl, fun link' pass hok => ?_⟩
          injection hok with hok
          rw [(Prod.mk.inj hok).1]
      | some file =>
          unfold prepare at h
          rw [hwriter, hpass] at h
          injection h with hp hm
          subst hp hm
          refine ⟨rfl, fun link' pass hok => ?_⟩
          split at hok
          · exact absurd hok (by simp)
          · injection hok with hok
            rw [(Prod.mk.inj hok).1]

end Socket

end PacedNet
