import PacedNet.Proofs.Pacing
import PacedNet.Proofs.Running
import PacedNet.Socket.Lifecycle

/-!
# Operations that move data

A transfer or a receive only calls the kernel and draws on a quota. It leaves all
else of the shared state alone, and of a quota it changes no more than the bucket
(`Machine.Moves`), so that a quota of positive rate keeps it.
-/

namespace PacedNet

variable {K : Type}

namespace Machine

/-- Only the kernel, the clock and buckets are different. -/
structure Moves (m m' : Machine K) : Prop where
  frame : m' = { m with kernel := m'.kernel, now := m'.now, quotas := m'.quotas }
  rates : m'.quotas.map Quota.rate = m.quotas.map Quota.rate

theorem Moves.refl (m : Machine K) : m.Moves m := ⟨rfl, rfl⟩

theorem Moves.trans {m m' m'' : Machine K} (h : m.Moves m') (h' : m'.Moves m'') : m.Moves m'' := by
  refine ⟨?_, h'.rates.trans h.rates⟩
  rw [h'.frame, h.frame]

theorem Moves.held {m m' : Machine K} (h : m.Moves m') : m'.held = m.held := by rw [h.frame]

theorem moves_kernel (m : Machine K) (kernel : K) : m.Moves { m with kernel } := ⟨rfl, rfl⟩

/-- A quota may be charged while time goes on. -/
theorem moves_charge {m : Machine K} {id : QuotaId} {q charged : Quota}
    (hq : m.quotas[id]? = some q) (hrate : charged.rate = q.rate) (now : Instant) :
    m.Moves { m with quotas := m.quotas.set id charged, now } := by
  refine ⟨rfl, List.ext_getElem? fun i => ?_⟩
  show ((m.quotas.set id charged).map Quota.rate)[i]? = _
  rw [List.getElem?_map, List.getElem?_map, List.getElem?_set]
  split
  · rename_i hi
    subst hi
    obtain ⟨hlt, -⟩ := List.getElem?_eq_some_iff.mp hq
    rw [if_pos hlt, hq, Option.map_some, Option.map_some, hrate]
  · rfl

/-- The rate of a quota stays. -/
theorem Moves.rate {m m' : Machine K} (h : m.Moves m') {id : QuotaId} {q : Quota}
    (hq : m'.quotas[id]? = some q) : ∃ p, m.quotas[id]? = some p ∧ p.rate = q.rate := by
  have hrate : (m'.quotas.map Quota.rate)[id]? = some q.rate := by simp [hq]
  rw [h.rates, List.getElem?_map, Option.map_eq_some_iff] at hrate
  exact hrate

/-- The quota, if there is one, has a positive rate. -/
def Flows (m : Machine K) (quota : Option QuotaId) : Prop :=
  ∀ id q, quota = some id → m.quotas[id]? = some q → q.rate.IsPositive

theorem Moves.flows {m m' : Machine K} {quota : Option QuotaId} (h : m.Moves m')
    (hf : m.Flows quota) : m'.Flows quota := by
  intro id q hid hq
  obtain ⟨p, hp, hpq⟩ := h.rate hq
  exact hpq ▸ hf id p hid hp

/-- The quota, if there is one, lets something pass. -/
def Passes (m : Machine K) (quota : Option QuotaId) : Prop :=
  ∀ id q, quota = some id → m.quotas[id]? = some q → q.Passes

/-- The rates of all quotas are numbers as formats have them. -/
def Proper (m : Machine K) : Prop := ∀ q ∈ m.quotas, q.rate.IsProper

theorem proper_of_fractions {m : Machine K} (h : ∀ q ∈ m.quotas, q.fraction.IsProper) : m.Proper :=
  fun q hq => Quota.isProper_rate (h q hq)

theorem Moves.proper {m m' : Machine K} (h : m.Moves m') (hproper : m.Proper) : m'.Proper := by
  intro q hq
  have hrate : q.rate ∈ m'.quotas.map Quota.rate := List.mem_map_of_mem hq
  rw [h.rates] at hrate
  obtain ⟨p, hp, hpq⟩ := List.mem_map.mp hrate
  exact hpq ▸ hproper p hp

end Machine

namespace Act

variable {α : Type} {m m' : Machine K}

theorem run_call_eq (f : K → Except Errno α × K) (toError : Errno → SocketError)
    (m : Machine K) : (call f toError).run m
      = ((f m.kernel).1.mapError fun e => .socket (toError e),
        { m with kernel := (f m.kernel).2 }) := by
  unfold call
  rw [run_get_bind]
  rcases f m.kernel with ⟨a | e, k⟩ <;> rfl

/-- A run of a call. -/
theorem run_call {f : K → Except Errno α × K} {toError : Errno → SocketError}
    {r : Except Failure α} (h : (call f toError).run m = (r, m')) :
    m.Moves m' ∧ m'.kernel = (f m.kernel).2
      ∧ r = (f m.kernel).1.mapError fun e => .socket (toError e) := by
  rw [run_call_eq] at h
  injection h with hr hm
  subst hr hm
  exact ⟨m.moves_kernel _, rfl, rfl⟩

/-- A run of a call, by what the kernel answered. -/
theorem run_call_cases {f : K → Except Errno α × K} {toError : Errno → SocketError}
    {r : Except Failure α} (h : (call f toError).run m = (r, m')) :
    m.Moves m' ∧ ((∃ errno, f m.kernel = (.error errno, m'.kernel)
          ∧ r = .error (.socket (toError errno)))
        ∨ ∃ a, f m.kernel = (.ok a, m'.kernel) ∧ r = .ok a) := by
  obtain ⟨hmoves, hkernel, hr⟩ := run_call h
  refine ⟨hmoves, ?_⟩
  rw [hkernel]
  cases hanswer : f m.kernel with
  | mk answer k =>
      rw [hanswer] at hr
      cases answer with
      | error errno => exact .inl ⟨errno, rfl, hr⟩
      | ok a => exact .inr ⟨a, rfl, hr⟩

/-- A run of a computation that succeeds. -/
theorem run_ofExcept_ok {r : Except SocketError α} {a : α}
    (h : (ofExcept (K := K) r).run m = (.ok a, m')) : r = .ok a ∧ m' = m := by
  unfold ofExcept at h
  split at h
  · injection h with ha hm
    injection ha with ha
    exact ⟨by rw [ha], hm.symm⟩
  · injection h with ha _
    exact absurd ha (by simp)

/-- A run of asking a quota. Without one all is granted; else the answer is the quota's, whose
bucket is charged while time goes on. -/
theorem run_pace_cases {stage : Stage} {quota : Option QuotaId} {bytes : Nat}
    {ask : Quota → Instant → Nat → Grant × Quota} {r : Except Failure Nat}
    (h : (pace (K := K) stage quota bytes ask).run m = (r, m')) :
    ((∀ id q, quota = some id → m.quotas[id]? ≠ some q) ∧ r = .ok bytes ∧ m' = m)
      ∨ ∃ id q, quota = some id ∧ m.quotas[id]? = some q
        ∧ (∃ now, m' = { m with quotas := m.quotas.set id (ask q m.now bytes).2, now })
        ∧ ((ask q m.now bytes).1 = .refused ∧ r = .error (.socket ⟨stage, .quotaExhausted⟩)
          ∨ (ask q m.now bytes).1 = .endless ∧ r = .error (.fault .endlessWait)
          ∨ ∃ n wait, (ask q m.now bytes).1 = .granted n wait ∧ r = .ok n) := by
  unfold pace at h
  rw [run_get_bind] at h
  split at h
  · rename_i hnone
    injection h with hr hm
    refine Or.inl ⟨fun id q hid hq => ?_, hr.symm, hm.symm⟩
    rw [hid, Option.bind_some, hq] at hnone
    exact absurd hnone (by simp)
  · rename_i id q hquota
    obtain ⟨place, hplace, hq⟩ := Option.bind_eq_some_iff.mp hquota
    obtain ⟨q', hq', hpair⟩ := Option.map_eq_some_iff.mp hq
    injection hpair with hid hqq
    subst hid hqq
    refine Or.inr ⟨place, q', hplace, hq', ?_⟩
    dsimp only at h
    rw [run_set_bind] at h
    split at h
    · rename_i hgrant
      injection h with hr hm
      exact ⟨⟨m.now, hm.symm⟩, Or.inl ⟨hgrant, hr.symm⟩⟩
    · rename_i hgrant
      injection h with hr hm
      exact ⟨⟨m.now, hm.symm⟩, Or.inr (Or.inl ⟨hgrant, hr.symm⟩)⟩
    · rename_i n wait hgrant
      injection h with hr hm
      exact ⟨⟨m.now + wait, hm.symm⟩, Or.inr (Or.inr ⟨n, wait, hgrant, hr.symm⟩)⟩

/-- Asking a quota only charges its bucket. -/
theorem moves_pace {stage : Stage} {quota : Option QuotaId} {bytes : Nat}
    {ask : Quota → Instant → Nat → Grant × Quota} {r : Except Failure Nat}
    (hask : ∀ q now n, (ask q now n).2.rate = q.rate)
    (h : (pace (K := K) stage quota bytes ask).run m = (r, m')) :
    m.Moves m' ∧ m'.kernel = m.kernel := by
  rcases run_pace_cases h with ⟨-, -, rfl⟩ | ⟨id, q, -, hq, ⟨now, rfl⟩, -⟩
  · exact ⟨.refl _, rfl⟩
  · exact ⟨Machine.moves_charge hq (hask q m.now bytes) now, rfl⟩

/-- A run of asking a quota: what is granted is no more than was asked for, and something of
anything if the quota has a positive rate. -/
theorem run_pace {stage : Stage} {quota : Option QuotaId} {bytes : Nat} {r : Except Failure Nat}
    (h : (pace (K := K) stage quota bytes Quota.throttle).run m = (r, m')) :
    m.Moves m' ∧ m'.kernel = m.kernel
      ∧ ∀ n, r = .ok n → n ≤ bytes ∧ (m.Flows quota → 0 < bytes → 0 < n) := by
  obtain ⟨hmoves, hkernel⟩ := moves_pace (fun q now n => (q.throttle_spec now n).1) h
  refine ⟨hmoves, hkernel, fun n hn => ?_⟩
  rcases run_pace_cases h with ⟨-, hok, -⟩ | ⟨id, q, hid, hq, -, hgrant⟩
  · rw [hok] at hn
    injection hn with hn
    exact ⟨hn.ge, fun _ hb => hn ▸ hb⟩
  · rcases hgrant with ⟨-, hno⟩ | ⟨-, hno⟩ | ⟨k, wait, hgrant, hok⟩
    · exact absurd (hn.symm.trans hno) (by simp)
    · exact absurd (hn.symm.trans hno) (by simp)
    · rw [hok] at hn
      injection hn with hn
      obtain ⟨hle, hpos⟩ := (q.throttle_spec m.now bytes).2 k wait hgrant
      exact ⟨hn ▸ hle, fun hflows => hn ▸ hpos (hflows id q hid hq)⟩

/-- A quota that grants anything lets something pass. -/
theorem passes_of_pace {stage : Stage} {quota : Option QuotaId} {bytes n : Nat}
    {ask : Quota → Instant → Nat → Grant × Quota}
    (hask : ∀ q now n, (ask q now n).1 = .refused ↔ ¬ q.Passes)
    (h : (pace (K := K) stage quota bytes ask).run m = (.ok n, m')) : m.Passes quota := by
  intro id q hid hq
  rcases run_pace_cases h with ⟨hnone, -, -⟩ | ⟨id', q', hid', hq', -, hgrant⟩
  · exact absurd hq (hnone id q hid)
  · obtain rfl : id = id' := Option.some.inj (hid.symm.trans hid')
    obtain rfl : q = q' := Option.some.inj (hq.symm.trans hq')
    by_contra hnot
    rw [(hask q m.now bytes).mpr hnot] at hgrant
    rcases hgrant with ⟨-, hno⟩ | ⟨hno, -⟩ | ⟨k, wait, hno, -⟩ <;> exact absurd hno (by simp)

/-- A quota refuses only where it lets nothing pass. -/
theorem pace_refused {stage : Stage} {quota : Option QuotaId} {bytes : Nat} {e : SocketError}
    {ask : Quota → Instant → Nat → Grant × Quota}
    (hask : ∀ q now n, (ask q now n).1 = .refused ↔ ¬ q.Passes)
    (h : (pace (K := K) stage quota bytes ask).run m = (.error (.socket e), m')) :
    e = ⟨stage, .quotaExhausted⟩ ∧ ¬ m.Passes quota := by
  rcases run_pace_cases h with ⟨-, hno, -⟩ | ⟨id, q, hid, hq, -, hgrant⟩
  · exact absurd hno (by simp)
  · rcases hgrant with ⟨hrefused, he⟩ | ⟨-, hno⟩ | ⟨n, wait, -, hno⟩
    · injection he with he
      injection he with he
      exact ⟨he, fun hpasses =>
        (hask q m.now bytes).mp hrefused (hpasses id q hid hq)⟩
    · exact absurd hno (by simp)
    · exact absurd hno (by simp)

/-- A quota that grants anything has a positive rate. -/
theorem flows_of_pace {stage : Stage} {quota : Option QuotaId} {bytes n : Nat}
    (hproper : m.Proper)
    (h : (pace (K := K) stage quota bytes Quota.throttle).run m = (.ok n, m')) :
    m.Flows quota := by
  intro id q hid hq
  exact Quota.isPositive_of_passes (hproper q (List.mem_of_getElem? hq))
    (passes_of_pace (fun q now n => q.reserve_refused now (min n q.burst)) h id q hid hq)

end Act

/-- A socket has a link where its state allows the operation. -/
theorem Socket.of_link {s : Socket} {stage : Stage} {allowed : State → Bool} {link : Link}
    (h : s.link stage allowed = .ok link) : s.descriptor = some link.descriptor
      ∧ allowed s.state = true ∧ link = ⟨link.descriptor, s.quota, s.number, s.kind⟩ := by
  unfold Socket.link at h
  split at h
  · rename_i d hd
    split at h
    · rename_i hallowed
      injection h with h
      subst h
      exact ⟨hd, hallowed, rfl⟩
    · exact absurd h (by simp)
  · exact absurd h (by simp)

/-- The link of a socket whose state allows the operation. -/
theorem Socket.link_eq_ok {s : Socket} {stage : Stage} {allowed : State → Bool} {d : Descriptor}
    {link : Link} (hd : s.descriptor = some d) (h : s.link stage allowed = .ok link) :
    link = ⟨d, s.quota, s.number, s.kind⟩ := by
  obtain ⟨hlink, -, hmade⟩ := of_link h
  obtain rfl := Option.some.inj (hd.symm.trans hlink)
  exact hmade

end PacedNet
