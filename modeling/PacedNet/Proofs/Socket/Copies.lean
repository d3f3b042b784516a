import PacedNet.Proofs.Socket.Frame

/-!
# Copies of descriptors

A send in the background passes a copy of the descriptor that it was given, since the original may
be gone before it runs. To whoever receives it the copy is as good as the original: the same file is
behind it. So the two transfers, one with the original and one with a copy, go the same way step by
step, and leave systems behind that differ by the open copy (`Transfer.mirrors_run`).
-/

namespace PacedNet

variable {K : Type}

/-- What a system promises of copies. A state may have an open copy more than another (`extra`);
states are alike that differ in nothing but which descriptor of a file was handed over. -/
structure Kernel.Copies [Kernel K] (extra : OpenFile → K → K → Prop) (alike : K → K → Prop) :
    Prop where
  /-- A copy is made and nothing else. -/
  made : ∀ {file copy k l}, Kernel.duplicate file k = (.ok copy, l) → extra copy k l
  /-- A copy may be handed over in place of the original. -/
  passed : ∀ {file copy k l d octets flags answer k'}, Kernel.duplicate file k = (.ok copy, l) →
    Kernel.send d octets flags (some file) k = (answer, k') →
      ∃ l', Kernel.send d octets flags (some copy) l = (answer, l') ∧ extra copy k' l'
  /-- Who sends beside an open copy sees no difference, and makes none. -/
  plain : ∀ {copy k l d octets flags answer k'}, extra copy k l →
    Kernel.send d octets flags none k = (answer, k') →
      ∃ l', Kernel.send d octets flags none l = (answer, l') ∧ extra copy k' l'
  /-- Closing the copy leaves what was handed over. -/
  closed : ∀ {copy k l}, extra copy k l → alike k (Kernel.closeFile copy l)

/-- The same but for the kernel and what no transfer looks at. -/
structure Machine.Mirrors (rel : K → K → Prop) (m l : Machine K) : Prop where
  kernel : rel m.kernel l.kernel
  now : l.now = m.now
  quotas : l.quotas = m.quotas
  cancelled : l.cancelled = m.cancelled

/-- Two operations that answer the same, where the kernels are in one relation before and in another
one after. -/
def Act.Mirrors {α : Type} (before after : K → K → Prop) (f g : Act K α) : Prop :=
  ∀ ⦃m l m' : Machine K⦄ ⦃r : Except Failure α⦄, m.Mirrors before l → f.run m = (r, m') →
    ∃ l', g.run l = (r, l') ∧ m'.Mirrors after l'

section

variable {before mid after : K → K → Prop} {m l : Machine K} {α β : Type}

theorem Machine.Mirrors.mono (h : m.Mirrors before l) (hle : ∀ k l, before k l → after k l) :
    m.Mirrors after l := ⟨hle _ _ h.kernel, h.now, h.quotas, h.cancelled⟩

theorem Act.mirrors_pure (hle : ∀ k l, before k l → after k l) (a : α) :
    Mirrors before after (pure a : Act K α) (pure a) := by
  intro m l m' r h hrun
  injection hrun with hr hm
  subst hr hm
  exact ⟨l, rfl, h.mono hle⟩

theorem Act.mirrors_fail (stage : Stage) (cause : Cause) :
    Mirrors before before (fail stage cause : Act K α) (fail stage cause) := by
  intro m l m' r h hrun
  injection hrun with hr hm
  subst hr hm
  exact ⟨l, rfl, h⟩

theorem Act.mirrors_bind {f g : Act K α} {f' g' : α → Act K β} (h : Mirrors before mid f g)
    (h' : ∀ a, Mirrors mid after (f' a) (g' a)) (hle : ∀ k l, mid k l → after k l) :
    Mirrors before after (f >>= f') (g >>= g') := by
  intro m l m' r hml hrun
  rcases run_bind hrun with ⟨a, m₁, hfirst, hrest⟩ | ⟨e, hfirst, rfl⟩
  · obtain ⟨l₁, hsame, hml₁⟩ := h hml hfirst
    obtain ⟨l', hsame', hml'⟩ := h' a hml₁ hrest
    exact ⟨l', (run_bind_of_ok hsame).trans hsame', hml'⟩
  · obtain ⟨l₁, hsame, hml₁⟩ := h hml hfirst
    exact ⟨l₁, run_bind_of_error hsame, hml₁.mono hle⟩

theorem Act.mirrors_pace {stage : Stage} {quota : Option QuotaId} {bytes : Nat}
    {ask : Quota → Instant → Nat → Grant × Quota} : Mirrors before before
      (pace stage quota bytes ask : Act K Nat) (pace stage quota bytes ask) := by
  intro m l m' r h hrun
  unfold pace at hrun ⊢
  rw [run_get_bind] at hrun ⊢
  rw [h.quotas, h.now]
  split at hrun
  · injection hrun with hr hm
    subst hr hm
    exact ⟨l, rfl, h⟩
  · dsimp only at hrun ⊢
    rw [run_set_bind] at hrun ⊢
    split at hrun
    · injection hrun with hr hm
      subst hr hm
      exact ⟨_, rfl, h.kernel, rfl, rfl, h.cancelled⟩
    · injection hrun with hr hm
      subst hr hm
      exact ⟨_, rfl, h.kernel, rfl, rfl, h.cancelled⟩
    · injection hrun with hr hm
      subst hr hm
      exact ⟨_, rfl, h.kernel, rfl, rfl, h.cancelled⟩

end

namespace Transfer

variable {before after : K → K → Prop} {pass pass' : Option OpenFile}

theorem mirrors_checkpoint (link : Link) :
    Act.Mirrors before before (checkpoint (K := K) link) (checkpoint link) := by
  intro m l m' r h hrun
  unfold checkpoint at hrun ⊢
  rw [run_get_bind] at hrun ⊢
  rw [h.cancelled]
  split at hrun
  · rename_i hcancelled
    rw [if_pos hcancelled]
    exact Act.mirrors_fail _ _ h hrun
  · rename_i hcancelled
    rw [if_neg hcancelled]
    exact Act.mirrors_pure (fun _ _ => id) _ h hrun

variable [Kernel K]

/-- Handing over one descriptor or another makes no difference to a transfer. -/
structure Stands (before after : K → K → Prop) (pass pass' : Option OpenFile) : Prop where
  same : pass'.isSome = pass.isSome
  weaken : ∀ k l, before k l → after k l
  send : ∀ {k l d octets flags answer k'}, before k l →
    Kernel.send d octets flags pass k = (answer, k') →
      ∃ l', Kernel.send d octets flags pass' l = (answer, l') ∧ after k' l'

theorem mirrors_send (hstands : Stands before after pass pass') (link : Link)
    (octets : List UInt8) (flags : Nat) :
    Act.Mirrors before after (send link octets flags pass) (send link octets flags pass') := by
  intro m l m' r h hrun
  unfold send at hrun ⊢
  rw [Act.run_call_eq] at hrun ⊢
  injection hrun with hr hm
  subst hr hm
  obtain ⟨l', hsend, hafter⟩ := hstands.send h.kernel rfl
  rw [hsend]
  exact ⟨_, rfl, hafter, h.now, h.quotas, h.cancelled⟩

theorem mirrors_round (hstands : Stands before after pass pass') (link : Link) (flags : Nat)
    (rest : List UInt8) :
    Act.Mirrors before after (round link flags pass rest) (round link flags pass' rest) :=
  Act.mirrors_bind (mirrors_checkpoint link) (fun _ =>
    Act.mirrors_bind Act.mirrors_pace (fun _ => mirrors_send hstands link _ flags) hstands.weaken)
    hstands.weaken

theorem mirrors_stream (hstands : Stands before after pass pass')
    (hplain : Stands after after none none) (link : Link) (flags : Nat) (report : SendReport)
    (rest : List UInt8) : Act.Mirrors before after (stream link flags pass report rest)
      (stream link flags pass' report rest) := by
  -- the descriptor rides on the first round; after it nothing is handed over
  induction hn : rest.length using Nat.strongRecOn generalizing before pass pass' report rest with
  | ind n ih =>
      subst hn
      cases rest with
      | nil =>
          rw [stream, stream]
          exact Act.mirrors_pure hstands.weaken report
      | cons b tail =>
          rw [stream, stream]
          refine Act.mirrors_bind (mirrors_round hstands link flags _) (fun sent => ?_)
            fun _ _ => id
          split
          · exact Act.mirrors_pure (fun _ _ => id) _
          · rename_i hsent
            have hless : ((b :: tail).drop sent).length < (b :: tail).length := by
              rw [List.length_drop, List.length_cons]
              omega
            exact ih _ hless hplain _ _ rfl

/-- **A transfer goes the same way** whichever descriptor of a file it hands over. -/
theorem mirrors_run (hstands : Stands before after pass pass')
    (hplain : Stands after after none none) (link : Link) (wire : List UInt8)
    (payloadBytes flags : Nat) : Act.Mirrors before after
      (run link ⟨wire, payloadBytes, flags, pass⟩ false)
      (run link ⟨wire, payloadBytes, flags, pass'⟩ false) := by
  have hwire : streamWire ⟨wire, payloadBytes, flags, pass'⟩
      = streamWire ⟨wire, payloadBytes, flags, pass⟩ := by
    unfold streamWire
    rw [hstands.same]
  have hdone (report : SendReport) : Act.Mirrors after after
      (do if false then awaitReply link
          return report : Act K SendReport) (do if false then awaitReply link
                                                return report) :=
    Act.mirrors_pure (fun _ _ => id) report
  unfold run
  rw [hwire]
  cases link.kind with
  | stream =>
      exact Act.mirrors_bind (mirrors_stream hstands hplain link flags _ _) hdone fun _ _ => id
  | datagram =>
      refine Act.mirrors_bind ?_ hdone fun _ _ => id
      exact Act.mirrors_bind (mirrors_checkpoint link) (fun _ =>
        Act.mirrors_bind Act.mirrors_pace (fun _ =>
          Act.mirrors_bind (mirrors_send hstands link _ _) (fun _ =>
            Act.mirrors_pure (fun _ _ => id) _) fun _ _ => id) hstands.weaken) hstands.weaken

/-- Nothing is handed over, in the same state. -/
theorem stands_none : Stands (K := K) Eq Eq none none where
  same := rfl
  weaken _ _ := id
  send := by
    rintro k _ d octets flags answer k' rfl hsend
    exact ⟨k', hsend, rfl⟩

variable {extra : OpenFile → K → K → Prop} {alike : K → K → Prop}

theorem stands_plain (h : Kernel.Copies extra alike) (copy : OpenFile) :
    Stands (extra copy) (extra copy) none none :=
  ⟨rfl, fun _ _ => id, h.plain⟩

/-- A copy in place of the original. -/
theorem stands_copy (h : Kernel.Copies extra alike) {file copy : OpenFile} :
    Stands (fun k l => Kernel.duplicate file k = (.ok copy, l)) (extra copy) (some file)
      (some copy) :=
  ⟨rfl, fun _ _ => h.made, h.passed⟩

end Transfer

end PacedNet
