import PacedNet.Proofs.Socket.Delivery
import PacedNet.Proofs.Socket.Frame
import Mathlib.Data.List.Basic
import Mathlib.Logic.Relation

/-!
# Jobs and their slots

A send that is started leaves a slot, and a job that owes it a result. Whoever runs the job pays,
and so does whoever drops it or closes the socket: of all slots that sends have made, only those
are open whose job is still there, with two exceptions (`resolves_ended`). A job whose quota makes
it wait without end stops with a fault, in the middle of its transfer, and nobody pays for it
(`endless_unresolved`). And a callback may unwind: the slot holds the result that the callback was
called with, and nobody is left to mark it.
-/

namespace PacedNet

variable {K : Type}

/-- A slot after somebody came to resolve it. -/
def Slot.settle (s : Slot) (r : SendResult) : Slot :=
  match s.store r with
  | none => s
  | some stored => stored.finish

/-- No resolution of the slot is under way. -/
def Slot.Whole (s : Slot) : Prop := s.done = true ↔ s.result ≠ none

namespace Slot

variable {s : Slot}

/-- A slot either has a result, and stays, or gets one and is done. -/
theorem settle_cases (s : Slot) (r : SendResult) :
    s.settle r = s ∧ s.result ≠ none ∨ (s.settle r).done = true := by
  unfold settle store
  cases hresult : s.result with
  | some r' => exact .inl ⟨rfl, by simp⟩
  | none => exact .inr rfl

theorem whole_new (callback : Bool) : (new callback).Whole := by simp [Whole, new]

theorem settle_of_result (h : s.result ≠ none) (r : SendResult) : s.settle r = s := by
  obtain ⟨old, hold⟩ := Option.ne_none_iff_exists'.mp h
  unfold settle store
  rw [hold]

theorem Whole.result_of_open (h : s.Whole) (hopen : s.done = false) : s.result = none := by
  by_contra hne
  exact absurd (h.mpr hne) (by rw [hopen]; simp)

/-- An open slot takes the result, and its callback is called. -/
theorem settle_of_open (h : s.Whole) (hopen : s.done = false) (r : SendResult) :
    s.settle r = ⟨some r, false, true⟩ := by
  unfold settle store
  rw [h.result_of_open hopen]
  rfl

theorem result_settle (s : Slot) (r : SendResult) : (s.settle r).result ≠ none := by
  by_cases h : s.result = none
  · unfold settle store
    rw [h]
    simp [finish]
  · rwa [settle_of_result h]

theorem settle_settle (s : Slot) (r r' : SendResult) : (s.settle r).settle r' = s.settle r :=
  settle_of_result (s.result_settle r) r'

theorem Whole.settle (h : s.Whole) (r : SendResult) : (s.settle r).Whole := by
  cases hdone : s.done with
  | true => rwa [settle_of_result (h.mp hdone)]
  | false =>
      rw [settle_of_open h hdone]
      simp [Whole]

end Slot

namespace Machine

variable {m m' : Machine K}

theorem slots_resolve (m : Machine K) (id : SlotId) (r : SendResult) :
    (m.resolve id r).slots = m.slots.modify id (·.settle r) := by
  rw [List.modify_eq_set_getElem?]
  unfold resolve Slot.settle
  cases hslot : m.slots[id]? with
  | none => rfl
  | some slot =>
      cases hstore : slot.store r with
      | none =>
          obtain ⟨hlt, hget⟩ := List.getElem?_eq_some_iff.mp hslot
          simp only [Option.map_eq_map, Option.map_some, Option.getD_some, hstore]
          rw [← hget, List.set_getElem_self]
      | some stored => simp only [Option.map_eq_map, Option.map_some, Option.getD_some, hstore]

/-- The newest slot, still open, takes the result, and its callback is called. -/
theorem resolve_newest {front : List Slot} {callback : Bool} (r : SendResult)
    (h : m.slots = front ++ [.new callback]) :
    m.resolve front.length r = { m with
      slots := front ++ [⟨some r, false, true⟩]
      calls := if callback then m.calls ++ [(front.length, r)] else m.calls } := by
  have hset (slot : Slot) :
      (front ++ [Slot.new callback]).set front.length slot = front ++ [slot] := by simp
  unfold resolve
  rw [h, List.getElem?_append_right (Nat.le_refl _), Nat.sub_self]
  show ({ m with slots := _, calls := _ } : Machine K) = _
  rw [hset]
  rfl

theorem cancelled_resolve (m : Machine K) (id : SlotId) (r : SendResult) :
    (m.resolve id r).cancelled = m.cancelled := by
  unfold resolve
  split
  · rfl
  · split <;> rfl

/-- A callback that unwinds leaves its slot with the result, and the rest as it is. -/
theorem unwind_eq {id : SlotId} {r : SendResult} (h : m.unwind id r = some m') :
    ∃ slot : Slot, m.slots[id]? = some slot ∧ slot.result = none ∧ slot.callback = true
      ∧ m' = { m with
        slots := m.slots.set id ⟨some r, false, slot.done⟩, calls := m.calls ++ [(id, r)] } := by
  unfold unwind at h
  obtain ⟨slot, hslot, h⟩ := Option.bind_eq_some_iff.mp h
  obtain ⟨stored, hstored, h⟩ := Option.bind_eq_some_iff.mp h
  split at h
  · rename_i hcallback
    unfold Slot.store at hstored
    split at hstored
    · exact absurd hstored (by simp)
    · rename_i hresult
      obtain rfl := Option.some.inj hstored
      exact ⟨slot, hslot, hresult, hcallback, (Option.some.inj h).symm⟩
  · exact absurd h (by simp)

/-- Letting go of a descriptor closes it at most. -/
theorem release_frame [Kernel K] (m : Machine K) (d : Descriptor) :
    ∃ kernel held, (m.release d).2 = { m with kernel, held }
      ∧ (kernel = m.kernel ∨ kernel = (Kernel.close d m.kernel).2) := by
  unfold release
  dsimp only
  split
  · exact ⟨_, _, rfl, .inl rfl⟩
  · exact ⟨_, _, rfl, .inr rfl⟩

/-- A slot whose callback was called with its result and unwound. -/
def Stuck (m : Machine K) (id : SlotId) (slot : Slot) : Prop :=
  ∃ r, slot.result = some r ∧ (id, r) ∈ m.calls

/-- Slots are as they were, or done, but for those whose callbacks unwound. -/
structure Settles (unwound : List SlotId) (m m' : Machine K) : Prop where
  length : m'.slots.length = m.slots.length
  slot : ∀ (id : SlotId) (slot : Slot), m'.slots[id]? = some slot →
    m.slots[id]? = some slot ∨ slot.done = true ∨ id ∈ unwound ∧ m'.Stuck id slot
  /-- A slot that holds a result is not touched again. -/
  kept : ∀ (id : SlotId) (slot : Slot), m.slots[id]? = some slot → slot.result ≠ none →
    m'.slots[id]? = some slot
  calls : m.calls ⊆ m'.calls

variable {unwound unwound' : List SlotId}

theorem Stuck.mono {id : SlotId} {slot : Slot} (h : m.Stuck id slot) (hcalls : m.calls ⊆ m'.calls) :
    m'.Stuck id slot := by
  obtain ⟨r, hresult, hcall⟩ := h
  exact ⟨r, hresult, hcalls hcall⟩

theorem Settles.of_eq (hslots : m'.slots = m.slots) (hcalls : m'.calls = m.calls) :
    Settles [] m m' :=
  ⟨by rw [hslots], fun id slot hslot => .inl (hslots ▸ hslot), fun id slot hslot _ => hslots ▸ hslot,
    hcalls ▸ List.Subset.refl _⟩

theorem Settles.trans {m'' : Machine K} (h : Settles unwound m m')
    (h' : Settles unwound' m' m'') : Settles (unwound ++ unwound') m m'' := by
  refine ⟨h'.length.trans h.length, fun id slot hslot => ?_,
    fun id slot hslot hresult => h'.kept id slot (h.kept id slot hslot hresult) hresult,
    List.Subset.trans h.calls h'.calls⟩
  rcases h'.slot id slot hslot with hsame | hdone | ⟨hunwound, hstuck⟩
  · rcases h.slot id slot hsame with hsame | hdone | ⟨hunwound, hstuck⟩
    · exact .inl hsame
    · exact .inr (.inl hdone)
    · exact .inr (.inr ⟨List.mem_append_left _ hunwound, hstuck.mono h'.calls⟩)
  · exact .inr (.inl hdone)
  · exact .inr (.inr ⟨List.mem_append_right _ hunwound, hstuck⟩)

theorem calls_resolve (m : Machine K) (id : SlotId) (r : SendResult) :
    m.calls ⊆ (m.resolve id r).calls := by
  unfold resolve
  split
  · exact List.Subset.refl _
  · split
    · exact List.Subset.refl _
    · dsimp only
      split
      · exact List.subset_append_left _ _
      · exact List.Subset.refl _

theorem settles_resolve (m : Machine K) (id : SlotId) (r : SendResult) :
    Settles [] m (m.resolve id r) := by
  refine ⟨by rw [slots_resolve, List.length_modify], fun i slot hslot => ?_,
    fun i slot hslot hresult => ?_, m.calls_resolve id r⟩
  · rw [slots_resolve, List.getElem?_modify] at hslot
    obtain ⟨old, hold, hsettled⟩ := Option.map_eq_some_iff.mp hslot
    split at hsettled
    · subst hsettled
      rcases old.settle_cases r with ⟨hsame, -⟩ | hdone
      · exact .inl (hsame.symm ▸ hold)
      · exact .inr (.inl hdone)
    · exact .inl (hsettled ▸ hold)
  · rw [slots_resolve, List.getElem?_modify, hslot]
    by_cases hi : id = i
    · simp [hi, Slot.settle_of_result hresult]
    · simp [hi]

/-- The slot itself is done, unless it was in the middle of being resolved. -/
theorem done_resolve {id : SlotId} {r : SendResult} {slot old : Slot}
    (hold : m.slots[id]? = some old) (hfresh : old.done = true ∨ old.result = none)
    (hslot : (m.resolve id r).slots[id]? = some slot) : slot.done = true := by
  rw [slots_resolve, List.getElem?_modify, hold] at hslot
  obtain rfl : old.settle r = slot := by simpa using hslot
  rcases old.settle_cases r with ⟨hsame, hresult⟩ | hdone
  · rcases hfresh with hdone | hnone
    · exact hsame.symm ▸ hdone
    · exact absurd hnone hresult
  · exact hdone

theorem settles_cancelAll (m : Machine K) (ids : List SlotId) :
    Settles [] m (m.cancelAll ids) := by
  induction ids generalizing m with
  | nil => exact .of_eq rfl rfl
  | cons id ids ih => exact (m.settles_resolve id cancelledSend).trans (ih _)

/-- Whoever calls a callback that unwinds stores a result first. -/
theorem settles_unwind {id : SlotId} {r : SendResult} (h : m.unwind id r = some m') :
    Settles [id] m m' ∧ ∀ slot, m'.slots[id]? = some slot → m'.Stuck id slot := by
  obtain ⟨old, hold, hnone, -, rfl⟩ := unwind_eq h
  have hstuck : ∀ slot, (m.slots.set id ⟨some r, false, old.done⟩)[id]? = some slot →
      slot.result = some r := by
    intro slot hslot
    obtain ⟨hlt, -⟩ := List.getElem?_eq_some_iff.mp hold
    rw [List.getElem?_set_self hlt] at hslot
    rw [← Option.some.inj hslot]
  have hcall : (id, r) ∈ m.calls ++ [(id, r)] := List.mem_append_right _ (List.mem_singleton_self _)
  refine ⟨⟨List.length_set, fun i slot hslot => ?_, fun i slot hslot hresult => ?_,
    List.subset_append_left _ _⟩, fun slot hslot => ⟨r, hstuck slot hslot, hcall⟩⟩
  · by_cases hi : i = id
    · subst hi
      exact .inr (.inr ⟨List.mem_singleton_self _, r, hstuck slot hslot, hcall⟩)
    · exact .inl (by rwa [List.getElem?_set_ne (Ne.symm hi)] at hslot)
  · have hi : id ≠ i := by
      rintro rfl
      obtain rfl := Option.some.inj (hold.symm.trans hslot)
      exact hresult hnone
    rwa [List.getElem?_set_ne hi]

end Machine

/-- Closing a socket cancels its transfers and then its pending sends; what else it does concerns
the kernel and the descriptors held. -/
theorem Socket.closing_frame [Kernel K] (s : Socket) (m : Machine K) :
    ∃ kernel held, (s.closing m).2
      = { ({ m with cancelled := s.number :: m.cancelled } : Machine K).cancelAll s.pending with
          kernel, held } := by
  have hremoving : ∀ m₁ : Machine K, ∃ kernel, (s.removing m₁).2 = { m₁ with kernel } := by
    intro m₁
    unfold removing
    cases s.file <;> exact ⟨_, rfl⟩
  have hcancelling : ∃ kernel, s.cancelling m
      = { ({ m with cancelled := s.number :: m.cancelled } : Machine K).cancelAll s.pending with
          kernel } := by
    unfold cancelling
    cases s.descriptor with
    | none => exact ⟨_, rfl⟩
    | some d =>
        dsimp only
        split <;> exact ⟨_, rfl⟩
  obtain ⟨woken, hcancelled⟩ := hcancelling
  obtain ⟨removed, hremoved⟩ := hremoving (s.cancelling m)
  unfold closing
  rw [hremoved, hcancelled]
  cases s.descriptor with
  | none => exact ⟨_, _, rfl⟩
  | some d =>
      obtain ⟨closed, held, hframe, -⟩ := Machine.release_frame
        { ({ m with cancelled := s.number :: m.cancelled } : Machine K).cancelAll s.pending with
          kernel := removed } d
      exact ⟨closed, held, hframe⟩

/-- Closing a socket resolves slots and does no more to them. -/
theorem Socket.settles_close [Kernel K] (s : Socket) (m : Machine K) :
    Machine.Settles [] m (s.close m).2.2 := by
  have hclosing : Machine.Settles [] m (s.closing m).2 := by
    have hmarked : Machine.Settles [] m { m with cancelled := s.number :: m.cancelled } :=
      .of_eq rfl rfl
    obtain ⟨kernel, held, hframe⟩ := s.closing_frame m
    rw [hframe]
    exact (hmarked.trans (Machine.settles_cancelAll _ s.pending)).trans (.of_eq rfl rfl)
  unfold close
  split
  · exact .of_eq rfl rfl
  · exact hclosing

/-- Closing a socket, until a callback unwinds. -/
theorem Socket.settles_closeUnwinding {s s' : Socket} {i : Nat} {m m' : Machine K}
    (h : s.closeUnwinding i m = some (s', m')) :
    ∃ id, s.pending[i]? = some id ∧ Machine.Settles [id] m m' := by
  unfold closeUnwinding at h
  split at h
  · exact absurd h (by simp)
  · obtain ⟨id, hid, h⟩ := Option.bind_eq_some_iff.mp h
    obtain ⟨m₁, hunwind, h⟩ := Option.bind_eq_some_iff.mp h
    obtain ⟨-, rfl⟩ := Prod.mk.inj (Option.some.inj h)
    have hmarked : Machine.Settles [] m { m with cancelled := s.number :: m.cancelled } :=
      .of_eq rfl rfl
    exact ⟨id, hid, (hmarked.trans (Machine.settles_cancelAll _ _)).trans
      (Machine.settles_unwind hunwind).1⟩

/-- A job that goes lets go of descriptors at most. -/
theorem Job.letGo_frame [Kernel K] (job : Job) (m : Machine K) :
    ∃ kernel held, job.letGo m = { m with kernel, held }
      ∧ (kernel = job.parcel.closePass m.kernel
        ∨ kernel = (Kernel.close job.link.descriptor (job.parcel.closePass m.kernel)).2) :=
  Machine.release_frame { m with kernel := job.parcel.closePass m.kernel } job.link.descriptor

theorem Job.letGo_slots [Kernel K] (job : Job) (m : Machine K) :
    (job.letGo m).slots = m.slots ∧ (job.letGo m).calls = m.calls := by
  obtain ⟨kernel, held, hframe, -⟩ := job.letGo_frame m
  rw [hframe]
  exact ⟨rfl, rfl⟩

namespace Socket

variable [Kernel K]

/-- A socket whose state allows it writes under its own number. -/
theorem owner_writer {s : Socket} {link : Link} (h : s.writer = .ok link) :
    link.owner = s.number ∧ s.state ≠ .closed := by
  obtain ⟨-, hallowed, hlink⟩ := of_link h
  refine ⟨by rw [hlink], fun hclosed => ?_⟩
  rw [hclosed] at hallowed
  exact absurd hallowed (by decide)

/-- What starting a send makes of its socket. A send that failed at once is resolved and leaves the
socket as it is; any other leaves a job and is noted as pending. -/
theorem dispatch_noted (s : Socket) (p : Payload) (options : SendOptions) (callback : Bool)
    {m m' : Machine K} {started : Dispatched}
    (h : s.dispatch p options callback m = (started, m')) :
    started.slot = m.slots.length ∧ m'.cancelled = m.cancelled ∧ m.calls ⊆ m'.calls
      ∧ ∃ slot, m'.slots = m.slots ++ [slot] ∧ slot.Whole
        ∧ (started.job = none ∧ started.socket = s ∧ slot.done = true
          ∨ ∃ job, started.job = some job ∧ job.slot = m.slots.length
            ∧ job.link.owner = s.number ∧ s.state ≠ .closed ∧ slot.done = false
            ∧ started.socket = s.register m' m.slots.length) := by
  unfold dispatch at h
  cases hprepared : s.prepare options (m.addSlot callback).2 with
  | mk prepared m₁ =>
      obtain ⟨hframe, hlink⟩ := prepare_frame hprepared
      have hslots : m₁.slots = m.slots ++ [.new callback] := by rw [hframe]; rfl
      have hcancelled : m₁.cancelled = m.cancelled := by rw [hframe]; rfl
      have hcalls : m₁.calls = m.calls := by rw [hframe]; rfl
      cases prepared with
      | error e =>
          dsimp only at h
          rw [hprepared] at h
          injection h with hs hm
          subst hs hm
          refine ⟨rfl, (m₁.cancelled_resolve _ _).trans hcancelled,
            hcalls ▸ m₁.calls_resolve _ _, _, ?_, (Slot.whole_new callback).settle (.error e),
            .inl ⟨rfl, rfl, rfl⟩⟩
          rw [Machine.slots_resolve, hslots, List.modify_eq_set_getElem?]
          simp [Machine.addSlot]
      | ok ready =>
          obtain ⟨link, pass⟩ := ready
          dsimp only at h
          rw [hprepared] at h
          injection h with hs hm
          subst hs hm
          obtain ⟨howner, hstate⟩ := owner_writer (hlink link pass rfl)
          exact ⟨rfl, hcancelled, hcalls ▸ List.Subset.refl _, _, hslots,
            Slot.whole_new callback, .inr ⟨_, rfl, rfl, howner, hstate, rfl, rfl⟩⟩

/-- A send that is refused, and whose callback unwinds. -/
theorem slots_dispatchUnwinding {s : Socket} {options : SendOptions} {m m' : Machine K}
    (h : s.dispatchUnwinding options m = some m') :
    ∃ slot, m'.slots = m.slots ++ [slot] ∧ m'.Stuck m.slots.length slot
      ∧ m.calls ⊆ m'.calls := by
  unfold dispatchUnwinding at h
  cases hprepared : s.prepare options (m.addSlot true).2 with
  | mk prepared m₁ =>
      dsimp only at h
      rw [hprepared] at h
      cases prepared with
      | ok ready => exact absurd h (by simp)
      | error e =>
          obtain ⟨hframe, -⟩ := prepare_frame hprepared
          have hslots : m₁.slots = m.slots ++ [.new true] := by rw [hframe]; rfl
          have hcalls : m₁.calls = m.calls := by rw [hframe]; rfl
          obtain ⟨hsettles, hstuck⟩ := Machine.settles_unwind h
          obtain ⟨old, -, -, -, rfl⟩ := Machine.unwind_eq h
          have hset : m₁.slots.set m.slots.length ⟨some (.error e), false, old.done⟩
              = m.slots ++ [⟨some (.error e), false, old.done⟩] := by
            rw [hslots]
            simp
          refine ⟨_, hset, hstuck _ ?_, hcalls ▸ hsettles.calls⟩
          show (m₁.slots.set m.slots.length _)[m.slots.length]? = some _
          rw [hset]
          simp

end Socket

namespace Job

variable [Kernel K]

/-- A run of a job: its slot gets what the transfer ended with, unless that is a fault, which only
the job's quota makes. -/
theorem run_cases (job : Job) (m : Machine K) :
    (∃ (m₁ : Machine K) (r : SendResult), m₁.slots = m.slots ∧ m₁.calls = m.calls
        ∧ (job.run m).1 = none ∧ (job.run m).2 = job.letGo (m₁.resolve job.slot r))
      ∨ (job.run m).1 = some .endlessWait ∧ job.link.quota ≠ none
        ∧ (job.run m).2.slots = m.slots ∧ (job.run m).2.calls = m.calls := by
  cases htransfer : (Transfer.run job.link job.parcel false).run m with
  | mk answer m₁ =>
      obtain ⟨hmoves, hfailure⟩ := Transfer.isPaced_run _ _ _ htransfer
      have hslots : m₁.slots = m.slots := by rw [hmoves.frame]
      have hcalls : m₁.calls = m.calls := by rw [hmoves.frame]
      unfold run
      rw [htransfer]
      cases answer with
      | ok report => exact .inl ⟨m₁, .ok report, hslots, hcalls, rfl, rfl⟩
      | error failure =>
          cases hfailure failure rfl with
          | socket e => exact .inl ⟨m₁, .error e, hslots, hcalls, rfl, rfl⟩
          | endless hquota =>
              obtain ⟨hsame, hquiet⟩ := job.letGo_slots m₁
              exact .inr ⟨rfl, hquota, hsame.trans hslots, hquiet.trans hcalls⟩

/-- A job that runs settles its slot, unless a fault ends it. -/
theorem settles_run (job : Job) {m : Machine K} (h : (job.run m).1 = none) :
    Machine.Settles [] m (job.run m).2
      ∧ ∀ old slot, m.slots[job.slot]? = some old → old.done = true ∨ old.result = none →
        (job.run m).2.slots[job.slot]? = some slot → slot.done = true := by
  rcases job.run_cases m with ⟨m₁, r, hslots, hcalls, -, hrun⟩ | ⟨hfault, -⟩
  · obtain ⟨hsame, hquiet⟩ := job.letGo_slots (m₁.resolve job.slot r)
    rw [hrun]
    refine ⟨((Machine.Settles.of_eq hslots hcalls).trans (m₁.settles_resolve job.slot r)).trans
      (.of_eq hsame hquiet), fun old slot hold hfresh hslot => ?_⟩
    rw [← hslots] at hold
    rw [hsame] at hslot
    exact Machine.done_resolve hold hfresh hslot
  · rw [h] at hfault
    exact absurd hfault (by simp)

/-- A job that is dropped settles its slot. -/
theorem settles_drop (job : Job) (m : Machine K) :
    Machine.Settles [] m (job.drop m)
      ∧ ∀ old slot, m.slots[job.slot]? = some old → old.done = true ∨ old.result = none →
        (job.drop m).slots[job.slot]? = some slot → slot.done = true := by
  obtain ⟨hsame, hquiet⟩ := job.letGo_slots (m.resolve job.slot cancelledSend)
  unfold drop
  refine ⟨(m.settles_resolve job.slot cancelledSend).trans (.of_eq hsame hquiet),
    fun old slot hold hfresh hslot => ?_⟩
  rw [hsame] at hslot
  exact Machine.done_resolve hold hfresh hslot

/-- A job whose callback unwinds, once its transfer has ended. -/
theorem settles_letGo {job : Job} {m m₁ m' : Machine K} {r : SendResult}
    (hslots : m₁.slots = m.slots) (hcalls : m₁.calls = m.calls)
    (h : (m₁.unwind job.slot r).map job.letGo = some m') :
    Machine.Settles [job.slot] m m'
      ∧ ∀ slot, m'.slots[job.slot]? = some slot → m'.Stuck job.slot slot := by
  obtain ⟨m₂, hunwind, rfl⟩ := Option.map_eq_some_iff.mp h
  obtain ⟨hsettles, hstuck⟩ := Machine.settles_unwind hunwind
  obtain ⟨hsame, hquiet⟩ := job.letGo_slots m₂
  refine ⟨((Machine.Settles.of_eq hslots hcalls).trans hsettles).trans (.of_eq hsame hquiet),
    fun slot hslot => ?_⟩
  rw [hsame] at hslot
  exact (hstuck slot hslot).mono (hquiet ▸ List.Subset.refl _)

theorem settles_runUnwinding {job : Job} {m m' : Machine K} (h : job.runUnwinding m = some m') :
    Machine.Settles [job.slot] m m'
      ∧ ∀ slot, m'.slots[job.slot]? = some slot → m'.Stuck job.slot slot := by
  unfold runUnwinding at h
  cases htransfer : (Transfer.run job.link job.parcel false).run m with
  | mk answer m₁ =>
      obtain ⟨hmoves, -⟩ := Transfer.isPaced_run _ _ _ htransfer
      have hslots : m₁.slots = m.slots := by rw [hmoves.frame]
      have hcalls : m₁.calls = m.calls := by rw [hmoves.frame]
      rw [htransfer] at h
      cases answer with
      | ok report => exact settles_letGo hslots hcalls h
      | error failure =>
          cases failure with
          | socket e => exact settles_letGo hslots hcalls h
          | config e => exact absurd h (by simp)
          | fault f => exact absurd h (by simp)

end Job

/-- Sends that were started. -/
structure Workload (K : Type) where
  machine : Machine K
  /-- Jobs that have not run. -/
  jobs : List Job
  /-- Jobs that a fault ended. -/
  broken : List (Job × ArithmeticFault)
  /-- Slots whose callbacks unwound. -/
  unwound : List SlotId

namespace Workload

variable {first : Nat} {w w' : Workload K}

/-- A job of that slot is still there, or was ended by a fault. -/
def Owes (w : Workload K) (id : SlotId) : Prop :=
  (∃ job ∈ w.jobs, job.slot = id) ∨ ∃ job fault, (job, fault) ∈ w.broken ∧ job.slot = id

/-- Every slot from the first on is done or owed a result, or its callback unwound. -/
structure Accounted (first : Nat) (w : Workload K) : Prop where
  slots : ∀ id slot, first ≤ id → w.machine.slots[id]? = some slot →
    slot.done = true ∨ (slot.result = none ∧ w.Owes id)
      ∨ id ∈ w.unwound ∧ w.machine.Stuck id slot
  broken : ∀ job fault, (job, fault) ∈ w.broken → fault = .endlessWait ∧ job.link.quota ≠ none

/-- A job that goes pays its slot, or its callback unwinds; all other debts stay. -/
theorem Accounted.settle (h : Accounted first w) {i : Nat} {job : Job}
    (hjob : w.jobs[i]? = some job) {machine : Machine K} {unwound : List SlotId}
    (hsettles : Machine.Settles unwound w.machine machine)
    (hpaid : ∀ old slot, w.machine.slots[job.slot]? = some old →
      old.done = true ∨ old.result = none → machine.slots[job.slot]? = some slot →
        slot.done = true ∨ job.slot ∈ unwound ∧ machine.Stuck job.slot slot) :
    Accounted first ⟨machine, w.jobs.eraseIdx i, w.broken, w.unwound ++ unwound⟩ := by
  have hunwound : ∀ {id slot}, id ∈ unwound ∧ machine.Stuck id slot →
      id ∈ w.unwound ++ unwound ∧ machine.Stuck id slot :=
    fun hnew => ⟨List.mem_append_right _ hnew.1, hnew.2⟩
  refine ⟨fun id slot hfirst hslot => ?_, h.broken⟩
  rcases hsettles.slot id slot hslot with hsame | hdone | hnew
  · rcases h.slots id slot hfirst hsame with
      hdone | ⟨hnone, ⟨other, hother, hid⟩ | hbroken⟩ | ⟨hold, hstuck⟩
    · exact .inl hdone
    · by_cases heq : id = job.slot
      · subst heq
        exact (hpaid slot slot hsame (.inr hnone) hslot).imp_right fun hnew => .inr (hunwound hnew)
      · -- the debt is another job's, which has not gone
        refine .inr (.inl ⟨hnone, .inl ⟨other, ?_, hid⟩⟩)
        obtain ⟨k, hk⟩ := List.mem_iff_getElem?.mp hother
        refine List.mem_eraseIdx_iff_getElem?.mpr ⟨k, fun hki => heq ?_, hk⟩
        rw [hki, hjob] at hk
        rw [← hid, Option.some.inj hk]
    · exact .inr (.inl ⟨hnone, .inr hbroken⟩)
    · exact .inr (.inr ⟨List.mem_append_left _ hold, hstuck.mono hsettles.calls⟩)
  · exact .inl hdone
  · exact .inr (.inr (hunwound hnew))

/-- Slots that others resolve are owed nothing more. -/
theorem Accounted.update (h : Accounted first w) {machine : Machine K} {unwound : List SlotId}
    (hsettles : Machine.Settles unwound w.machine machine) :
    Accounted first { w with machine, unwound := w.unwound ++ unwound } := by
  refine ⟨fun id slot hfirst hslot => ?_, h.broken⟩
  rcases hsettles.slot id slot hslot with hsame | hdone | ⟨hnew, hstuck⟩
  · rcases h.slots id slot hfirst hsame with hdone | howed | ⟨hold, hstuck⟩
    · exact .inl hdone
    · exact .inr (.inl howed)
    · exact .inr (.inr ⟨List.mem_append_left _ hold, hstuck.mono hsettles.calls⟩)
  · exact .inl hdone
  · exact .inr (.inr ⟨List.mem_append_right _ hnew, hstuck⟩)

variable [Kernel K]

/-- A socket starts to send a payload. -/
def dispatch (w : Workload K) (s : Socket) (p : Payload) (options : SendOptions)
    (callback : Bool) : Workload K :=
  let (started, machine) := s.dispatch p options callback w.machine
  { w with machine, jobs := w.jobs ++ started.job.toList }

/-- A job runs, and is gone. -/
def runJob (w : Workload K) (i : Nat) (job : Job) : Workload K :=
  let (fault, machine) := job.run w.machine
  { w with
    machine, jobs := w.jobs.eraseIdx i, broken := w.broken ++ fault.toList.map (job, ·) }

/-- A job is dropped before it ran. -/
def dropJob (w : Workload K) (i : Nat) (job : Job) : Workload K :=
  { w with machine := job.drop w.machine, jobs := w.jobs.eraseIdx i }

/-- What may happen. Whoever resolves a slot calls its callback, which returns or unwinds. -/
inductive Step : Workload K → Workload K → Prop where
  | dispatch (w : Workload K) (s : Socket) (p : Payload) (options : SendOptions)
      (callback : Bool) : Step w (w.dispatch s p options callback)
  | runJob (w : Workload K) {i : Nat} {job : Job} : w.jobs[i]? = some job → Step w (w.runJob i job)
  | dropJob (w : Workload K) {i : Nat} {job : Job} :
      w.jobs[i]? = some job → Step w (w.dropJob i job)
  | close (w : Workload K) (s : Socket) : Step w { w with machine := (s.close w.machine).2.2 }
  | dispatchUnwinding (w : Workload K) {s : Socket} {options : SendOptions} {machine : Machine K} :
      s.dispatchUnwinding options w.machine = some machine →
        Step w { w with machine, unwound := w.unwound ++ [w.machine.slots.length] }
  | runUnwinding (w : Workload K) {i : Nat} {job : Job} {machine : Machine K} :
      w.jobs[i]? = some job → job.runUnwinding w.machine = some machine →
        Step w ⟨machine, w.jobs.eraseIdx i, w.broken, w.unwound ++ [job.slot]⟩
  | dropUnwinding (w : Workload K) {i : Nat} {job : Job} {machine : Machine K} :
      w.jobs[i]? = some job → job.dropUnwinding w.machine = some machine →
        Step w ⟨machine, w.jobs.eraseIdx i, w.broken, w.unwound ++ [job.slot]⟩
  | closeUnwinding (w : Workload K) {s s' : Socket} {i : Nat} {id : SlotId}
      {machine : Machine K} : s.pending[i]? = some id →
        s.closeUnwinding i w.machine = some (s', machine) →
          Step w { w with machine, unwound := w.unwound ++ [id] }
  /-- Whatever else a program does leaves slots and callbacks alone. -/
  | elsewhere (w : Workload K) {machine : Machine K} : machine.slots = w.machine.slots →
      machine.calls = w.machine.calls → Step w { w with machine }

/-- A state that sends may come to. -/
abbrev Reaches (w w' : Workload K) : Prop := Relation.ReflTransGen Step w w'

/-! ## One step -/

omit [Kernel K] in
/-- What stands in a list that got one more. -/
theorem getElem?_snoc {slots : List Slot} {new slot : Slot} {id : Nat}
    (h : (slots ++ [new])[id]? = some slot) :
    slots[id]? = some slot ∨ id = slots.length ∧ slot = new := by
  by_cases hid : id < slots.length
  · exact .inl (by rwa [List.getElem?_append_left hid] at h)
  · have hlast : id = slots.length := by
      obtain ⟨hlt, -⟩ := List.getElem?_eq_some_iff.mp h
      rw [List.length_append, List.length_singleton] at hlt
      omega
    exact .inr ⟨hlast, by simpa [hlast] using h.symm⟩

theorem accounted_dispatch (h : Accounted first w) (s : Socket) (p : Payload)
    (options : SendOptions) (callback : Bool) :
    Accounted first (w.dispatch s p options callback) := by
  cases hrun : s.dispatch p options callback w.machine with
  | mk started machine =>
      obtain ⟨-, -, hcalls, new, hslots, hwhole, hnew⟩ := s.dispatch_noted p options callback hrun
      have hdispatch : w.dispatch s p options callback
          = { w with machine, jobs := w.jobs ++ started.job.toList } := by
        unfold dispatch
        rw [hrun]
      rw [hdispatch]
      refine ⟨fun id slot hfirst hslot => ?_, h.broken⟩
      rw [hslots] at hslot
      rcases getElem?_snoc hslot with hsame | ⟨rfl, rfl⟩
      · rcases h.slots id slot hfirst hsame with
          hdone | ⟨hnone, ⟨job, hjob, hslot⟩ | hbroken⟩ | ⟨hold, hstuck⟩
        · exact .inl hdone
        · exact .inr (.inl ⟨hnone, .inl ⟨job, List.mem_append_left _ hjob, hslot⟩⟩)
        · exact .inr (.inl ⟨hnone, .inr hbroken⟩)
        · exact .inr (.inr ⟨hold, hstuck.mono hcalls⟩)
      · rcases hnew with ⟨-, -, hdone⟩ | ⟨job, hjob, howed, -, -, hopen, -⟩
        · exact .inl hdone
        · refine .inr (.inl ⟨hwhole.result_of_open hopen, .inl ⟨job, ?_, howed⟩⟩)
          simp [hjob]

theorem accounted_dispatchUnwinding (h : Accounted first w) {s : Socket} {options : SendOptions}
    {machine : Machine K} (hrun : s.dispatchUnwinding options w.machine = some machine) :
    Accounted first { w with machine, unwound := w.unwound ++ [w.machine.slots.length] } := by
  obtain ⟨new, hslots, hnew, hcalls⟩ := Socket.slots_dispatchUnwinding hrun
  refine ⟨fun id slot hfirst hslot => ?_, h.broken⟩
  rw [hslots] at hslot
  rcases getElem?_snoc hslot with hsame | ⟨rfl, rfl⟩
  · rcases h.slots id slot hfirst hsame with hdone | howed | ⟨hold, hstuck⟩
    · exact .inl hdone
    · exact .inr (.inl howed)
    · exact .inr (.inr ⟨List.mem_append_left _ hold, hstuck.mono hcalls⟩)
  · exact .inr (.inr ⟨List.mem_append_right _ (List.mem_singleton_self _), hnew⟩)

theorem accounted_runJob (h : Accounted first w) {i : Nat} {job : Job}
    (hjob : w.jobs[i]? = some job) : Accounted first (w.runJob i job) := by
  have hrun : w.runJob i job = ⟨(job.run w.machine).2, w.jobs.eraseIdx i,
      w.broken ++ (job.run w.machine).1.toList.map (job, ·), w.unwound⟩ := rfl
  rw [hrun]
  rcases job.run_cases w.machine with ⟨-, -, -, -, hfault, -⟩ | ⟨hfault, hquota, hslots, hcalls⟩
  · rw [hfault, Option.toList_none, List.map_nil, List.append_nil]
    obtain ⟨hsettles, hpaid⟩ := job.settles_run hfault
    have haccounted := h.settle hjob hsettles fun old slot hold hfresh hslot =>
      .inl (hpaid old slot hold hfresh hslot)
    rwa [List.append_nil] at haccounted
  · -- the job stops half-way, and its slot stays as it is
    rw [hfault, Option.toList_some, List.map_singleton]
    refine ⟨fun id slot hfirst hslot => ?_, fun other fault hother => ?_⟩
    · rw [hslots] at hslot
      rcases h.slots id slot hfirst hslot with
        hdone | ⟨hnone, ⟨other, hother, hid⟩ | hbroken⟩ | ⟨hold, hstuck⟩
      · exact .inl hdone
      · refine .inr (.inl ⟨hnone, ?_⟩)
        obtain ⟨k, hk⟩ := List.mem_iff_getElem?.mp hother
        by_cases hki : k = i
        · rw [hki, hjob] at hk
          exact .inr ⟨job, .endlessWait, by simp, Option.some.inj hk ▸ hid⟩
        · exact .inl ⟨other, List.mem_eraseIdx_iff_getElem?.mpr ⟨k, hki, hk⟩, hid⟩
      · obtain ⟨other, fault, hother, hid⟩ := hbroken
        exact .inr (.inl ⟨hnone, .inr ⟨other, fault, List.mem_append_left _ hother, hid⟩⟩)
      · exact .inr (.inr ⟨hold, hstuck.mono (hcalls ▸ List.Subset.refl _)⟩)
    · rcases List.mem_append.mp hother with hold | hnew
      · exact h.broken other fault hold
      · obtain ⟨rfl, rfl⟩ : other = job ∧ fault = .endlessWait := by simpa using hnew
        exact ⟨rfl, hquota⟩

theorem accounted_dropJob (h : Accounted first w) {i : Nat} {job : Job}
    (hjob : w.jobs[i]? = some job) : Accounted first (w.dropJob i job) := by
  obtain ⟨hsettles, hpaid⟩ := job.settles_drop w.machine
  have haccounted := h.settle hjob hsettles fun old slot hold hfresh hslot =>
    .inl (hpaid old slot hold hfresh hslot)
  rwa [List.append_nil] at haccounted

omit [Kernel K] in
/-- A job whose callback unwinds is gone, and its slot is stuck. -/
theorem accounted_unwinding (h : Accounted first w) {i : Nat} {job : Job}
    (hjob : w.jobs[i]? = some job) {machine : Machine K}
    (hends : Machine.Settles [job.slot] w.machine machine
      ∧ ∀ slot, machine.slots[job.slot]? = some slot → machine.Stuck job.slot slot) :
    Accounted first ⟨machine, w.jobs.eraseIdx i, w.broken, w.unwound ++ [job.slot]⟩ :=
  h.settle hjob hends.1 fun _ slot _ _ hslot =>
    .inr ⟨List.mem_singleton_self _, hends.2 slot hslot⟩

/-- **No step leaves a slot that nobody owes a result**, unless its callback unwound. -/
theorem accounted_step (h : Accounted first w) (hs : Step w w') : Accounted first w' := by
  have hupdate : ∀ {machine : Machine K}, Machine.Settles [] w.machine machine →
      Accounted first { w with machine } := by
    intro machine hsettles
    have haccounted := h.update hsettles
    rwa [List.append_nil] at haccounted
  cases hs with
  | dispatch s p options callback => exact accounted_dispatch h s p options callback
  | runJob hjob => exact accounted_runJob h hjob
  | dropJob hjob => exact accounted_dropJob h hjob
  | close s => exact hupdate (s.settles_close w.machine)
  | dispatchUnwinding hrun => exact accounted_dispatchUnwinding h hrun
  | runUnwinding hjob hrun => exact accounted_unwinding h hjob (Job.settles_runUnwinding hrun)
  | dropUnwinding hjob hrun => exact accounted_unwinding h hjob (Job.settles_letGo rfl rfl hrun)
  | closeUnwinding hid hrun =>
      obtain ⟨id', hid', hsettles⟩ := Socket.settles_closeUnwinding hrun
      obtain rfl := Option.some.inj (hid'.symm.trans hid)
      exact h.update hsettles
  | elsewhere hslots hcalls => exact hupdate (.of_eq hslots hcalls)

theorem kept_step (hs : Step w w') {id : SlotId} {slot : Slot}
    (hslot : w.machine.slots[id]? = some slot) (hresult : slot.result ≠ none) :
    w'.machine.slots[id]? = some slot := by
  obtain ⟨hlt, -⟩ := List.getElem?_eq_some_iff.mp hslot
  cases hs with
  | dispatch s p options callback =>
      obtain ⟨-, -, -, new, hslots, -⟩ :=
        s.dispatch_noted p options callback (m := w.machine) rfl
      exact (congrArg (·[id]?) hslots).trans ((List.getElem?_append_left hlt).trans hslot)
  | runJob hjob =>
      rename_i job
      rcases job.run_cases w.machine with ⟨-, -, -, -, hfault, -⟩ | ⟨-, -, hslots, -⟩
      · exact (job.settles_run hfault).1.kept id slot hslot hresult
      · exact (congrArg (·[id]?) hslots).trans hslot
  | dropJob hjob =>
      rename_i job
      exact (job.settles_drop w.machine).1.kept id slot hslot hresult
  | close s => exact (s.settles_close w.machine).kept id slot hslot hresult
  | dispatchUnwinding hrun =>
      obtain ⟨new, hslots, -⟩ := Socket.slots_dispatchUnwinding hrun
      exact (congrArg (·[id]?) hslots).trans ((List.getElem?_append_left hlt).trans hslot)
  | runUnwinding _ hrun => exact (Job.settles_runUnwinding hrun).1.kept id slot hslot hresult
  | dropUnwinding _ hrun => exact (Job.settles_letGo rfl rfl hrun).1.kept id slot hslot hresult
  | closeUnwinding _ hrun =>
      obtain ⟨_, -, hsettles⟩ := Socket.settles_closeUnwinding hrun
      exact hsettles.kept id slot hslot hresult
  | elsewhere hslots _ => exact (congrArg (·[id]?) hslots).trans hslot

theorem accounted_reaches (h : Accounted first w) (hs : Reaches w w') : Accounted first w' := by
  induction hs with
  | refl => exact h
  | tail _ hstep ih => exact accounted_step ih hstep

/-- A slot that holds a result is never touched again: one whose callback unwound stays open for
good. -/
theorem kept_reaches (hs : Reaches w w') {id : SlotId} {slot : Slot}
    (hslot : w.machine.slots[id]? = some slot) (hresult : slot.result ≠ none) :
    w'.machine.slots[id]? = some slot := by
  induction hs with
  | refl => exact hslot
  | tail _ hstep ih => exact kept_step hstep ih hresult

/-- **A job that has ended has resolved its slot**, whatever the kernel answered it, but for two
endings. Of a slot that is open either the job still waits to run; or a fault ended it, a wait
without end for a quota that it had; or the slot's callback was called, with the result that the
slot holds, and unwound. -/
theorem resolves_ended {m : Machine K} (h : Reaches ⟨m, [], [], []⟩ w) {id : SlotId}
    (hfirst : m.slots.length ≤ id) :
    w.machine.isResolved id = true ∨ (∃ job ∈ w.jobs, job.slot = id)
      ∨ (∃ job, (job, .endlessWait) ∈ w.broken ∧ job.slot = id ∧ job.link.quota ≠ none)
      ∨ id ∈ w.unwound ∧ ∃ slot, w.machine.slots[id]? = some slot ∧ w.machine.Stuck id slot := by
  have hopening : Accounted m.slots.length (⟨m, [], [], []⟩ : Workload K) := by
    refine ⟨fun id slot hid hslot => ?_, by simp⟩
    obtain ⟨hlt, -⟩ := List.getElem?_eq_some_iff.mp hslot
    exact absurd hlt (Nat.not_lt.mpr hid)
  have haccounted := accounted_reaches hopening h
  unfold Machine.isResolved
  cases hslot : w.machine.slots[id]? with
  | none => exact .inl rfl
  | some slot =>
      rcases haccounted.slots id slot hfirst hslot with
        hdone | ⟨-, hjob | ⟨job, fault, hbroken, hid⟩⟩ | ⟨hunwound, hstuck⟩
      · exact .inl hdone
      · exact .inr (.inl hjob)
      · obtain ⟨rfl, hquota⟩ := haccounted.broken job fault hbroken
        exact .inr (.inr (.inl ⟨job, hbroken, hid, hquota⟩))
      · exact .inr (.inr (.inr ⟨hunwound, slot, rfl, hstuck⟩))

/-- A quota that lets one octet pass at once and the next never: the wait for it would be longer
than any duration. -/
def glacial : Quota := .full 0 (.clamp 1) (.ofBits 0x01a56e1fc2f8f359)

/-- A stream with such a quota, before any send. -/
def idle : Workload Host where
  machine := { Machine.start Host.pair with quotas := [glacial], held := [0] }
  jobs := []
  broken := []
  unwound := []

/-- What a send of two octets leaves to be done. -/
def twoOctets : Job where
  slot := 0
  link := ⟨0, some 0, 0, .stream⟩
  parcel := (Payload.single [1, 2]).parcel ⟨0, none⟩

/-- The send was started, and its job has run. -/
def stalled : Workload Host :=
  (idle.dispatch (.endOf 0 (some 0)) (.single [1, 2]) ⟨0, none⟩ false).runJob 0 twoOctets

theorem reaches_stalled : Reaches idle stalled :=
  .tail (.single (.dispatch _ _ _ _ _)) (.runJob _ (by decide +kernel))

theorem resolves_ended_stalled :
    stalled.machine.isResolved 0 = true ∨ (∃ job ∈ stalled.jobs, job.slot = 0)
      ∨ (∃ job, (job, .endlessWait) ∈ stalled.broken ∧ job.slot = 0 ∧ job.link.quota ≠ none)
      ∨ 0 ∈ stalled.unwound ∧ ∃ slot, stalled.machine.slots[0]? = some slot
        ∧ stalled.machine.Stuck 0 slot :=
  resolves_ended reaches_stalled (Nat.zero_le _)

/-- **A job may end without resolving its slot.** The quota is one that can be made, the socket is
open, the job is gone and nothing will resolve its slot. -/
theorem endless_unresolved :
    Quota.new 0 (.clamp 1) (.ofBits 0x01a56e1fc2f8f359) = .ok glacial
      ∧ Reaches idle stalled ∧ stalled.jobs = [] ∧ stalled.machine.cancelled = []
      ∧ stalled.machine.isResolved 0 = false :=
  ⟨by decide +kernel, reaches_stalled, by decide +kernel, by decide +kernel, by decide +kernel⟩

end Workload

end PacedNet
