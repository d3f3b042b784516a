import PacedNet.Proofs.Socket.Taking

/-!
# What a receive that fails has taken

A receive takes in several steps: a chunk, then all that is there, then it replies. What an early
step has taken is gone if a later one fails, whatever others do between the two. Each part of a
receive is gone through once: what its own steps have taken (`Tally`), and how it may have failed.
The error tells which step failed (`Socket.DropsReceiving`), and so what is lost: most errors say
that nothing is, and a reply that fails loses what the receive would have returned.
-/

namespace PacedNet

variable {K : Type}

/-- The socket with acknowledgement off. -/
def Socket.silent (s : Socket) : Socket := { s with acknowledge := false }

/-- How a receive may fail between two chunks: in the kernel, or at its quota, which lets nothing
pass by then. -/
def Script.Breaks (quota : Option QuotaId) (own : List (Moment K)) (e : SocketError) : Prop :=
  (∃ errno, e = ⟨.read, .system errno⟩)
    ∨ e = ⟨.read, .quotaExhausted⟩ ∧ ∃ earlier x, own = earlier ++ [x] ∧ ¬ x.before.Passes quota

/-- The octets that a step has read. -/
def Event.octets : Event → List UInt8
  | .received _ _ (some got) => got.octets
  | _ => []

/-- All octets that steps have read, one after the other. -/
def readBy (own : List (Moment K)) : List UInt8 := own.flatMap fun x => x.event.octets

/-- What a receive may have taken that fails with an error after steps of its own. -/
inductive Socket.DropsReceiving [Kernel K] (s : Socket) :
    List (Moment K) → SocketError → List (List UInt8) → Prop where
  | nothing (own : List (Moment K)) (e : SocketError) : DropsReceiving s own e []
  /-- Chunks of a stream were read, then one failed. -/
  | chunks (own : List (Moment K)) (errno : Errno) (lost : List (List UInt8)) : s.kind = .stream →
      lost.flatten = readBy own → DropsReceiving s own ⟨.read, .system errno⟩ lost
  /-- Chunks of a stream were read, then the quota let nothing pass any more, which it had. -/
  | exhausted (earlier : List (Moment K)) (x y : Moment K) (lost : List (List UInt8)) :
      s.kind = .stream → lost.flatten = readBy (earlier ++ [x]) →
      y ∈ earlier → y.before.Passes s.quota → ¬ x.before.Passes s.quota →
      DropsReceiving s (earlier ++ [x]) ⟨.read, .quotaExhausted⟩ lost
  /-- A message was longer than it had looked. -/
  | truncated (own : List (Moment K)) (message : List UInt8) : s.kind = .datagram →
      DropsReceiving s own ⟨.read, .truncated message.length⟩ [message]
  /-- The reply failed. All was read by then, and would have been returned without a reply. -/
  | unanswered (earlier : List (Moment K)) (x : Moment K) (errno : Errno)
      (lost : List (List UInt8)) (more : Nat) : s.acknowledge = true →
      (Script.receiveData s.silent more).Does (earlier ++ [⟨x.before, .replied, x.before⟩])
        (.ended (.ok lost.flatten)) →
      (s.kind = .datagram → lost.length ≤ 1) →
      DropsReceiving s (earlier ++ [x]) ⟨.write, .system errno⟩ lost
  /-- The reply told that the peer is gone, and with it all that it had sent. -/
  | gone (own : List (Moment K)) (lost : List (List UInt8)) : s.acknowledge = true →
      s.kind = .datagram → DropsReceiving s own ⟨.write, .system .connectionRefused⟩ lost

variable {kind : Kind} {d : Descriptor} {up : K → Prop} {queue : K → List (List UInt8)}
  {s : Socket} {link : Link} {own : List (Moment K)}

/-- What steps on a stream have taken, which is what they have read. -/
structure Gathers (queue : K → List (List UInt8)) (own : List (Moment K))
    (taken : List (List UInt8)) : Prop where
  tally : Tally .stream queue own taken
  read : taken.flatten = readBy own

theorem gathers_nil : Gathers queue [] [] := ⟨tally_nil, rfl⟩

theorem Gathers.append {more : List (Moment K)} {taken rest : List (List UInt8)}
    (h : Gathers queue own taken) (h' : Gathers queue more rest) :
    Gathers queue (own ++ more) (taken ++ rest) := by
  refine ⟨h.tally.append h'.tally, ?_⟩
  rw [List.flatten_append, h.read, h'.read]
  exact List.flatMap_append.symm

namespace Script

variable {α : Type} {quota : Option QuotaId}

theorem Breaks.after {e : SocketError} (h : Breaks quota own e) (first : List (Moment K)) :
    Breaks quota (first ++ own) e := by
  rcases h with hsystem | ⟨he, earlier, x, rfl, hnot⟩
  · exact .inl hsystem
  · exact .inr ⟨he, first ++ earlier, x, (List.append_assoc ..).symm, hnot⟩

/-! ## The parts of an operation -/

/-- Asking a quota for bytes that must pass as one. It grants if it lets something pass. -/
theorem does_paceWhole (hup : ∀ x ∈ own, up x.before.kernel) {stage : Stage} {bytes : Nat}
    {r : Except Failure Nat}
    (h : (paceWhole stage quota bytes : Script K Nat).Does own (ended r)) :
    ∃ x, own = [x] ∧ Tally kind queue own [] ∧ readBy own = []
      ∧ (∀ n, r = .ok n → x.before.Passes quota)
      ∧ ∀ e, r = .error (.socket e) →
          e = ⟨stage, .quotaExhausted⟩ ∧ ¬ x.before.Passes quota := by
  obtain ⟨m, m', rfl, hrun⟩ := does_step h
  have htakes : Machine.Takes kind up queue [] m m' :=
    Act.takes_paceWhole (hup _ List.mem_cons_self) hrun
  refine ⟨_, rfl, htakes.tally _, ?_, fun n hn => ?_, fun e he => ?_⟩
  · cases quotaOf quota m with
    | none => rfl
    | some q => cases r <;> rfl
  · subst hn
    exact Act.passes_of_pace (fun q now n => q.reserve_refused now n) hrun
  · subst he
    exact Act.pace_refused (fun q now n => q.reserve_refused now n) hrun

/-- Asking a quota for up to that many bytes. It answers in the last step. -/
theorem does_pace (hup : ∀ x ∈ own, up x.before.kernel) {stage : Stage} {bytes : Nat}
    {r : Except Failure Nat} (h : (pace stage quota bytes : Script K Nat).Does own (ended r)) :
    ∃ earlier x, own = earlier ++ [x] ∧ Tally kind queue own [] ∧ readBy own = []
      ∧ (∀ n, r = .ok n → x.before.Passes quota)
      ∧ ∀ e, r = .error (.socket e) →
          e = ⟨stage, .quotaExhausted⟩ ∧ ¬ x.before.Passes quota := by
  -- reading the burst is no matter of the kernel, and does not fail
  have hsize {r : Except Failure Nat} {own : List (Moment K)}
      (hup : ∀ x ∈ own, up x.before.kernel)
      (h : (size quota bytes : Script K Nat).Does own (ended r)) :
      (Tally kind queue own [] ∧ readBy own = []) ∧ ∃ n, r = .ok n := by
    cases h with
    | cons m hrest =>
        obtain ⟨rfl, rfl⟩ := does_ended hrest
        have htakes : Machine.Takes kind up queue [] m m :=
          Machine.takes_of_kernel rfl (hup _ List.mem_cons_self)
        refine ⟨⟨htakes.tally _, ?_⟩, _, rfl⟩
        show ((quotaOf quota m).elim Event.quiet fun q => .sized q.burst).octets ++ [] = []
        cases quotaOf quota m <;> rfl
  rcases does_bind h with ⟨n, first, second, rfl, hfirst, hsecond⟩ | ⟨failure, hfirst, -⟩
  · obtain ⟨hup₁, hup₂⟩ := List.forall_mem_append.mp hup
    obtain ⟨x, rfl, hrest, hread, hanswer⟩ := does_paceWhole hup₂ hsecond
    obtain ⟨⟨hsized, hnone⟩, -⟩ := hsize hup₁ hfirst
    refine ⟨first, x, rfl, hsized.append hrest, ?_, hanswer⟩
    exact List.flatMap_append.trans (congrArg₂ (· ++ ·) hnone hread)
  · obtain ⟨-, n, hno⟩ := hsize hup hfirst
    exact absurd hno (by simp)

/-- A message that was received is answered if there was room for all of it. -/
theorem does_whole {length : Nat} {got : Incoming} {taken : List (List UInt8)}
    (htakes : got.Takes .datagram length taken) {r : Except Failure Incoming}
    (h : (if length < got.length then fail .read (.truncated got.length)
      else return got : Script K Incoming).Does own (ended r)) :
    own = [] ∧ taken.length ≤ 1 ∧ (∀ message, r = .ok message → message.octets = taken.flatten)
      ∧ ∀ e, r = .error (.socket e) → taken = []
          ∨ ∃ message, taken = [message] ∧ e = ⟨.read, .truncated message.length⟩ := by
  have hone : taken.length ≤ 1 := by
    rcases htakes with ⟨rfl, -⟩ | ⟨message, rfl, -⟩
    · exact Nat.zero_le 1
    · exact Nat.le_refl 1
  split at h
  · obtain ⟨rfl, rfl⟩ := does_ended h
    refine ⟨rfl, hone, by simp, fun e he => ?_⟩
    rcases htakes with ⟨hnone, -⟩ | ⟨message, hmessage, -, hlength⟩
    · exact .inl hnone
    · injection he with he
      injection he with he
      exact .inr ⟨message, hmessage, by rw [← he, hlength]⟩
  · rename_i hfits
    obtain ⟨rfl, rfl⟩ := does_ended h
    refine ⟨rfl, hone, fun message hmessage => ?_, by simp⟩
    injection hmessage with hmessage
    subst hmessage
    rcases htakes with ⟨rfl, hnil⟩ | ⟨message, rfl, hoctets, hlength⟩
    · exact hnil
    · rw [hoctets, List.flatten_singleton]
      exact List.take_of_length_le (by omega)

variable [Kernel K]

theorem does_receive (hK : Kernel.Inbox kind d up queue) (hup : ∀ x ∈ own, up x.before.kernel)
    {room : Nat} {r : Except Failure Incoming}
    (h : (receive d room : Script K Incoming).Does own (ended r)) :
    (∃ errno, r = .error (.socket ⟨.read, .system errno⟩) ∧ Tally kind queue own []
        ∧ readBy own = [])
      ∨ ∃ got taken, r = .ok got ∧ got.Takes kind room taken ∧ Tally kind queue own taken
        ∧ readBy own = got.octets := by
  obtain ⟨m, m', rfl, hrun⟩ := does_step h
  rcases Socket.takes_receiveCall hK (hup _ List.mem_cons_self) hrun with
    ⟨errno, rfl, htakes⟩ | ⟨got, taken, rfl, hgot, htakes⟩
  · exact .inl ⟨errno, rfl, htakes.tally _, rfl⟩
  · exact .inr ⟨got, taken, rfl, hgot, htakes.tally _, List.append_nil _⟩

/-- Reading a chunk of a stream. It takes what it answers, and its quota let it pass. -/
theorem does_readChunk (hK : Kernel.Inbox .stream d up queue) (hlink : link.descriptor = d)
    (hup : ∀ x ∈ own, up x.before.kernel) {r : Except Failure Incoming}
    (h : (readChunk s link : Script K Incoming).Does own (ended r)) :
    (∃ failure, r = .error failure ∧ Gathers queue own []
        ∧ ∀ e, failure = .socket e → Breaks link.quota own e)
      ∨ ∃ got, r = .ok got ∧ Gathers queue own [got.octets]
          ∧ ∃ y ∈ own, y.before.Passes link.quota := by
  subst hlink
  rcases does_bind h with ⟨room, first, second, rfl, hpace, hreceive⟩ | ⟨failure, hpace, rfl⟩
  · obtain ⟨hup₁, hup₂⟩ := List.forall_mem_append.mp hup
    obtain ⟨earlier, y, rfl, hpaced, hnone, hpasses, -⟩ := does_pace hup₁ hpace
    have hfirst : Gathers queue (earlier ++ [y]) [] := ⟨hpaced, hnone.symm⟩
    rcases does_receive hK hup₂ hreceive with
      ⟨errno, rfl, htally, hread⟩ | ⟨got, taken, rfl, ⟨rfl, -⟩, htally, hread⟩
    · refine .inl ⟨_, rfl, hfirst.append ⟨htally, hread.symm⟩, fun e he => .inl ⟨errno, ?_⟩⟩
      injection he with he
      exact he.symm
    · have hchunk : Gathers queue second [got.octets] :=
        ⟨htally, List.flatten_singleton.trans hread.symm⟩
      exact .inr ⟨got, rfl, hfirst.append hchunk, y, by simp, hpasses room rfl⟩
  · obtain ⟨earlier, x, rfl, hpaced, hnone, -, hrefused⟩ := does_pace hup hpace
    refine .inl ⟨failure, rfl, ⟨hpaced, hnone.symm⟩, fun e he => .inr ?_⟩
    obtain ⟨hexhausted, hnot⟩ := hrefused e (he ▸ rfl)
    exact ⟨hexhausted, earlier, x, rfl, hnot⟩

/-- Reading on while something is there. What it takes comes after what was read before. -/
theorem does_drain (hK : Kernel.Inbox .stream d up queue) (hlink : link.descriptor = d)
    {bound : Nat} {read : List UInt8} (hup : ∀ x ∈ own, up x.before.kernel)
    {r : Except Failure (List UInt8)}
    (h : (drain s link bound read : Script K (List UInt8)).Does own (ended r)) :
    ∃ taken, Gathers queue own taken
      ∧ (∀ all, r = .ok all → all = read.reverse ++ taken.flatten)
      ∧ ∀ e, r = .error (.socket e) → Breaks link.quota own e := by
  induction bound generalizing read own with
  | zero =>
      obtain ⟨rfl, rfl⟩ := does_ended h
      exact ⟨[], gathers_nil, by simp, by simp⟩
  | succ bound ih =>
      unfold drain at h
      -- looking takes nothing, and does not fail
      have hlooked {first : List (Moment K)} (hup : ∀ x ∈ first, up x.before.kernel)
          {answer : Except Failure Bool} (h : (look link : Script K Bool).Does first (ended answer)) :
          Gathers queue first [] ∧ ∃ ready, answer = .ok ready := by
        obtain ⟨m, m', rfl, hrun⟩ := does_step h
        obtain ⟨htakes, hready⟩ := Socket.takes_isReady hK hlink (hup _ List.mem_cons_self) hrun
        exact ⟨⟨htakes.tally _, rfl⟩, hready⟩
      rcases does_bind h with ⟨ready, first, rest, rfl, hlook, h₁⟩ | ⟨failure, hlook, -⟩
      · obtain ⟨hup₁, hup₂⟩ := List.forall_mem_append.mp hup
        obtain ⟨hnone, -⟩ := hlooked hup₁ hlook
        cases ready with
        | false =>
            obtain ⟨rfl, rfl⟩ := does_ended h₁
            exact ⟨[], hnone.append gathers_nil, by simp, by simp⟩
        | true =>
            rcases does_bind h₁ with ⟨chunk, second, third, rfl, hread, h₂⟩ | ⟨failure, hread, rfl⟩
            · obtain ⟨hup₂, hup₃⟩ := List.forall_mem_append.mp hup₂
              rcases does_readChunk hK hlink hup₂ hread with
                ⟨failure, hno, -⟩ | ⟨got, hgot, hchunk, -⟩
              · exact absurd hno (by simp)
              · injection hgot with hgot
                subst hgot
                have hsofar := hnone.append hchunk
                split at h₂
                · -- an empty chunk ends it
                  rename_i hnil
                  obtain ⟨rfl, rfl⟩ := does_ended h₂
                  refine ⟨[chunk.octets], ?_, by simp [List.isEmpty_iff.mp hnil], by simp⟩
                  rw [List.append_nil]
                  exact hsofar
                · obtain ⟨taken, hrest, hdata, herror⟩ := ih hup₃ h₂
                  refine ⟨[chunk.octets] ++ taken, ?_, fun data hr => ?_, fun e he => ?_⟩
                  · rw [← List.append_assoc]
                    exact hsofar.append hrest
                  · rw [hdata data hr]
                    simp
                  · rw [← List.append_assoc]
                    exact (herror e he).after _
            · rcases does_readChunk hK hlink hup₂ hread with
                ⟨failure', hfail, hchunk, hbreaks⟩ | ⟨got, hno, -⟩
              · refine ⟨[], hnone.append hchunk, by simp, fun e he => ?_⟩
                injection hfail with hfail
                injection he with he
                exact (hbreaks e (hfail ▸ he)).after first
              · exact absurd hno (by simp)
      · obtain ⟨-, ready, hno⟩ := hlooked hup hlook
        exact absurd hno (by simp)

/-- Reading all that is there, after the first chunk. -/
theorem does_drainAll (hK : Kernel.Inbox .stream d up queue) (hlink : link.descriptor = d)
    {more : Nat} {data : List UInt8} (hup : ∀ x ∈ own, up x.before.kernel)
    {r : Except Failure (List UInt8)}
    (h : (drainAll s link more data : Script K (List UInt8)).Does own (ended r)) :
    ∃ taken, Gathers queue own taken
      ∧ (∀ all, r = .ok all → all = data ++ taken.flatten)
      ∧ ∀ e, r = .error (.socket e) → Breaks link.quota own e := by
  -- asking how many chunks may come takes nothing, and does not fail
  have hask {own : List (Moment K)} (hup : ∀ x ∈ own, up x.before.kernel)
      {answer : Except Failure Nat}
      (h : (bound link more : Script K Nat).Does own (ended answer)) :
      Gathers queue own [] ∧ ∃ n, answer = .ok n := by
    cases h with
    | cons m hrest =>
        obtain ⟨rfl, rfl⟩ := does_ended hrest
        have htakes : Machine.Takes .stream up queue [] m m :=
          Machine.takes_of_kernel rfl (hup _ List.mem_cons_self)
        exact ⟨⟨htakes.tally _, rfl⟩, _, rfl⟩
  rcases does_bind h with ⟨bound, first, rest, rfl, hbound, hdrain⟩ | ⟨failure, hbound, -⟩
  · obtain ⟨hup₁, hup₂⟩ := List.forall_mem_append.mp hup
    obtain ⟨taken, hrest, hall, hbreaks⟩ := does_drain hK hlink hup₂ hdrain
    refine ⟨taken, (hask hup₁ hbound).1.append hrest, fun all hr => ?_,
      fun e he => (hbreaks e he).after first⟩
    rw [hall all hr, List.reverse_reverse]
  · obtain ⟨-, n, hno⟩ := hask hup hbound
    exact absurd hno (by simp)

/-- Receiving a message. It takes one at most: the one it answers, or one that was cut. -/
theorem does_readMessage (hK : Kernel.Inbox .datagram d up queue) (hlink : link.descriptor = d)
    (hup : ∀ x ∈ own, up x.before.kernel) {r : Except Failure Incoming}
    (h : (readMessage link : Script K Incoming).Does own (ended r)) :
    ∃ taken, Tally .datagram queue own taken ∧ taken.length ≤ 1
      ∧ (∀ got, r = .ok got → got.octets = taken.flatten)
      ∧ ∀ e, r = .error (.socket e) → taken = []
          ∨ ∃ message, taken = [message] ∧ e = ⟨.read, .truncated message.length⟩ := by
  subst hlink
  unfold readMessage at h
  have hpeek {first : List (Moment K)} (hup : ∀ x ∈ first, up x.before.kernel)
      {answer : Except Failure Nat}
      (h : (step (fun _ _ => .quiet) (Act.call (Kernel.nextLength link.descriptor)
        fun e => ⟨.read, .system e⟩) : Script K Nat).Does first (ended answer)) :
      Tally .datagram queue first [] := by
    obtain ⟨m, m', rfl, hrun⟩ := does_step h
    exact (Socket.takes_nextLength hK (hup _ List.mem_cons_self) hrun).tally _
  rcases does_bind h with ⟨length, first, rest, rfl, hlook, h₁⟩ | ⟨failure, hlook, rfl⟩
  · obtain ⟨hup₁, hup₂⟩ := List.forall_mem_append.mp hup
    have hlooked := hpeek hup₁ hlook
    rcases does_bind h₁ with ⟨granted, second, third, rfl, hpace, h₂⟩ | ⟨failure, hpace, rfl⟩
    · obtain ⟨hup₂, hup₃⟩ := List.forall_mem_append.mp hup₂
      obtain ⟨-, -, hpaced, -⟩ := does_paceWhole hup₂ hpace
      have hsofar := hlooked.append hpaced
      rw [← List.append_assoc]
      rcases does_bind h₂ with ⟨got, fourth, fifth, rfl, hreceive, h₃⟩ | ⟨failure, hreceive, rfl⟩
      · obtain ⟨hup₄, -⟩ := List.forall_mem_append.mp hup₃
        rcases does_receive hK hup₄ hreceive with
          ⟨errno, hno, -⟩ | ⟨got', taken, hgot, htakes, htally, -⟩
        · exact absurd hno (by simp)
        · injection hgot with hgot
          subst hgot
          obtain ⟨rfl, hone, hwhole, hcut⟩ := does_whole htakes h₃
          refine ⟨taken, ?_, hone, hwhole, hcut⟩
          rw [List.append_nil]
          exact hsofar.append htally
      · rcases does_receive hK hup₃ hreceive with
          ⟨errno, -, htally, -⟩ | ⟨got, taken, hno, -⟩
        · exact ⟨[], hsofar.append htally, Nat.zero_le 1, by simp, fun _ _ => .inl rfl⟩
        · exact absurd hno (by simp)
    · obtain ⟨-, -, hpaced, -⟩ := does_paceWhole hup₂ hpace
      exact ⟨[], hlooked.append hpaced, Nat.zero_le 1, by simp, fun _ _ => .inl rfl⟩
  · exact ⟨[], hpeek hup hlook, Nat.zero_le 1, by simp, fun _ _ => .inl rfl⟩

/-! ## Receiving -/

/-- What a receive does before it replies. -/
def reading (s : Socket) (link : Link) (more : Nat) : Script K (List UInt8) :=
  match s.kind with
  | .datagram => do pure (← readMessage link).octets
  | .stream => do
    let first ← readChunk s link
    if first.octets.isEmpty then fail .read .peerClosed
    else drainAll s link more first.octets

theorem receiveData_eq (s : Socket) (more : Nat) :
    (receiveData s more : Script K (List UInt8)) = do
      let link ← ofExcept s.reader
      let data ← reading s link more
      reply s link
      return data := by
  unfold receiveData reading
  cases s.kind with
  | stream =>
      refine bind_congr fun link => ?_
      rw [bind_assoc]
      refine bind_congr fun first => ?_
      split <;> rfl
  | datagram =>
      refine bind_congr fun link => ?_
      rw [bind_assoc]

/-- Whether it acknowledges makes no difference to what a socket reads. -/
theorem reading_silent (s : Socket) (link : Link) (more : Nat) :
    (reading s.silent link more : Script K (List UInt8)) = reading s link more := by
  have hdrain (bound : Nat) (read : List UInt8) :
      (drain s.silent link bound read : Script K (List UInt8)) = drain s link bound read := by
    induction bound generalizing read with
    | zero => rfl
    | succ bound ih =>
        unfold drain
        simp only [ih]
        rfl
  unfold reading drainAll
  simp only [hdrain]
  rfl

/-- Reading from a stream fails at the first chunk, or at one after it. -/
theorem does_reading_stream (hK : Kernel.Inbox .stream d up queue) (hlink : link.descriptor = d)
    (hquota : link.quota = s.quota) (hkind : s.kind = .stream)
    (hup : ∀ x ∈ own, up x.before.kernel) {more : Nat} {r : Except Failure (List UInt8)}
    (h : (reading s link more : Script K (List UInt8)).Does own (ended r)) :
    ∃ taken, Tally .stream queue own taken ∧ (∀ data, r = .ok data → data = taken.flatten)
      ∧ ∀ e, r = .error (.socket e) → s.DropsReceiving own e taken := by
  unfold reading at h
  rw [hkind] at h
  rcases does_bind h with ⟨chunk, first, rest, rfl, hfirst, h₁⟩ | ⟨failure, hfirst, rfl⟩
  · obtain ⟨hup₁, hup₂⟩ := List.forall_mem_append.mp hup
    rcases does_readChunk hK hlink hup₁ hfirst with
      ⟨failure, hno, -⟩ | ⟨got, hgot, hchunk, y, hy, hpasses⟩
    · exact absurd hno (by simp)
    · injection hgot with hgot
      subst hgot
      split at h₁
      · -- the stream has ended, and an empty chunk takes nothing
        rename_i hnil
        obtain ⟨rfl, rfl⟩ := does_ended h₁
        rw [List.append_nil]
        exact ⟨[], hchunk.tally.none (by simp [List.isEmpty_iff.mp hnil]), by simp,
          fun e _ => .nothing first e⟩
      · -- the quota has let a chunk pass, so if it refuses one to come, that was changed meanwhile
        obtain ⟨taken, hrest, hall, hbreaks⟩ := does_drainAll hK hlink hup₂ h₁
        have hboth := hchunk.append hrest
        refine ⟨[chunk.octets] ++ taken, hboth.tally, hall, fun e he => ?_⟩
        rcases hbreaks e he with ⟨errno, rfl⟩ | ⟨rfl, earlier, x, rfl, hnot⟩
        · exact .chunks _ errno _ hkind hboth.read
        · rw [hquota] at hpasses hnot
          rw [← List.append_assoc] at hboth ⊢
          exact .exhausted _ x y _ hkind hboth.read (List.mem_append_left _ hy) hpasses hnot
  · rcases does_readChunk hK hlink hup hfirst with ⟨-, -, hnone, -⟩ | ⟨got, hno, -⟩
    · exact ⟨[], hnone.tally, by simp, fun e _ => .nothing _ e⟩
    · exact absurd hno (by simp)

/-- Reading a message. -/
theorem does_reading_datagram (hK : Kernel.Inbox .datagram d up queue) (hlink : link.descriptor = d)
    (hkind : s.kind = .datagram) (hup : ∀ x ∈ own, up x.before.kernel) {more : Nat}
    {r : Except Failure (List UInt8)}
    (h : (reading s link more : Script K (List UInt8)).Does own (ended r)) :
    ∃ taken, Tally .datagram queue own taken ∧ taken.length ≤ 1
      ∧ (∀ data, r = .ok data → data = taken.flatten)
      ∧ ∀ e, r = .error (.socket e) → s.DropsReceiving own e taken := by
  unfold reading at h
  rw [hkind] at h
  rcases does_bind h with ⟨message, first, rest, rfl, hread, hanswer⟩ | ⟨failure, hread, rfl⟩
  · obtain ⟨hup₁, -⟩ := List.forall_mem_append.mp hup
    obtain ⟨taken, htally, hone, hall, -⟩ := does_readMessage hK hlink hup₁ hread
    obtain ⟨rfl, rfl⟩ := does_ended hanswer
    rw [List.append_nil]
    refine ⟨taken, htally, hone, fun data hdata => ?_, by simp⟩
    injection hdata with hdata
    rw [← hdata, hall message rfl]
  · obtain ⟨taken, htally, hone, -, hcut⟩ := does_readMessage hK hlink hup hread
    refine ⟨taken, htally, hone, by simp, fun e he => ?_⟩
    injection he with he
    rcases hcut e (he ▸ rfl) with rfl | ⟨message, rfl, rfl⟩
    · exact .nothing _ e
    · exact .truncated _ message hkind

/-- What a receive has taken before it replies, which it would return. -/
theorem does_reading (hK : Kernel.Inbox s.kind d up queue) (hlink : link.descriptor = d)
    (hquota : link.quota = s.quota) (hup : ∀ x ∈ own, up x.before.kernel) {more : Nat}
    {r : Except Failure (List UInt8)}
    (h : (reading s link more : Script K (List UInt8)).Does own (ended r)) :
    ∃ taken, Tally s.kind queue own taken ∧ (s.kind = .datagram → taken.length ≤ 1)
      ∧ (∀ data, r = .ok data → data = taken.flatten)
      ∧ ∀ e, r = .error (.socket e) → s.DropsReceiving own e taken := by
  cases hkind : s.kind with
  | stream =>
      obtain ⟨taken, htally, hanswer⟩ := does_reading_stream (hkind ▸ hK) hlink hquota hkind hup h
      exact ⟨taken, htally, by simp, hanswer⟩
  | datagram =>
      obtain ⟨taken, htally, hone, hanswer⟩ :=
        does_reading_datagram (hkind ▸ hK) hlink hkind hup h
      exact ⟨taken, htally, fun _ => hone, hanswer⟩

/-- A reply that fails, after data was taken: it is lost. -/
theorem does_reply (hK : Kernel.Inbox s.kind d up queue) (hlink : link.descriptor = d)
    {earlier : List (Moment K)} {taken : List (List UInt8)}
    (htaken : Tally s.kind queue earlier taken) (hone : s.kind = .datagram → taken.length ≤ 1)
    {more : Nat}
    (hsilent : ∀ m, (receiveData s.silent more).Does (earlier ++ [⟨m, .replied, m⟩])
      (ended (.ok taken.flatten)))
    (hup : ∀ x ∈ own, up x.before.kernel) {e : SocketError}
    (h : (reply s link : Script K Unit).Does own (ended (.error (.socket e)))) :
    ∃ lost, s.DropsReceiving (earlier ++ own) e lost ∧ Tally s.kind queue (earlier ++ own) lost := by
  obtain ⟨m, m', rfl, hrun⟩ := does_step h
  obtain ⟨lost, htakes, hcases, hsystem⟩ :=
    Socket.takes_reply hK hlink (hup _ List.mem_cons_self) hrun
  obtain ⟨hack, errno, herrno⟩ := hsystem _ rfl
  injection herrno with herrno
  subst herrno
  refine ⟨taken ++ lost, ?_, htaken.append (htakes.tally _)⟩
  -- what was read is lost, and more only if the reply finds the peer of a datagram socket gone
  rcases hcases with rfl | ⟨hkind, hrefused⟩
  · rw [List.append_nil]
    exact .unanswered earlier _ errno taken more hack (hsilent m) hone
  · injection hrefused with hrefused
    injection hrefused with hrefused
    rw [hrefused]
    exact .gone _ _ hack hkind

/-- **A receive of data that fails.** -/
theorem does_receiveData (hK : Kernel.Inbox s.kind d up queue) (hd : s.descriptor = some d)
    (hup : ∀ x ∈ own, up x.before.kernel) {more : Nat} {e : SocketError}
    (h : (receiveData s more : Script K (List UInt8)).Does own (ended (.error (.socket e)))) :
    ∃ lost, s.DropsReceiving own e lost ∧ Tally s.kind queue own lost := by
  rw [receiveData_eq] at h
  cases hreader : s.reader with
  | error refused =>
      rw [hreader] at h
      obtain ⟨rfl, -⟩ := does_ended h
      exact ⟨[], .nothing _ e, tally_nil⟩
  | ok link =>
      obtain rfl := Socket.link_eq_ok hd hreader
      rw [hreader] at h
      rcases does_bind (s := reading s ⟨d, s.quota, s.number, s.kind⟩ more) h with
        ⟨data, first, rest, rfl, hread, h₁⟩ | ⟨failure, hread, he⟩
      · obtain ⟨hup₁, hup₂⟩ := List.forall_mem_append.mp hup
        obtain ⟨taken, htally, hone, hall, -⟩ := does_reading hK rfl rfl hup₁ hread
        -- up to the reply the silent socket does the same
        have hsilent (m : Machine K) : (receiveData s.silent more).Does
            (first ++ [⟨m, .replied, m⟩]) (ended (.ok taken.flatten)) := by
          rw [receiveData_eq, show s.silent.reader = _ from hreader, ← hall data rfl]
          rw [← reading_silent] at hread
          exact hread.bind (.cons m (.nil _))
        rcases does_bind h₁ with ⟨⟨⟩, second, third, rfl, -, hreturn⟩ | ⟨failure, hreply, he⟩
        · exact absurd (does_ended hreturn).2 (by simp)
        · injection he with he
          subst he
          exact does_reply hK rfl htally hone hsilent hup₂ hreply
      · injection he with he
        subst he
        obtain ⟨taken, htally, -, -, hdrops⟩ := does_reading hK rfl rfl hup hread
        exact ⟨taken, hdrops e rfl, htally⟩

end Script

end PacedNet
