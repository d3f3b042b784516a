import PacedNet.Proofs.Socket.Workload

/-!
# Sends that are pending

A socket counts the sends it has started and that have no result yet, and closing it cancels
exactly these. It keeps a list of their slots, from which resolved ones are dropped as others are
added, so the list holds other slots than the handles given out; what is still open is the same in
both (`Tracked.unresolved`), whoever resolved the rest.

Closing also cancels the socket's transfers. A job that runs afterwards finds its slot resolved, and
its transfer stops before it hands anything to the kernel or has nothing to hand over: all it does
is to let go of its descriptors (`Job.run_cancelled`).
-/

namespace PacedNet

variable {K : Type}

namespace Machine

variable {m m' : Machine K} {id : SlotId} {slot : Slot}

theorem isResolved_of_slot (h : m.slots[id]? = some slot) : m.isResolved id = slot.done := by
  unfold isResolved
  rw [h]
  rfl

/-- A slot with a result keeps it, and nobody is called. -/
theorem resolve_of_result (h : m.slots[id]? = some slot) (hresult : slot.result ≠ none)
    (r : SendResult) : m.resolve id r = m := by
  obtain ⟨old, hold⟩ := Option.ne_none_iff_exists'.mp hresult
  unfold resolve
  rw [h]
  simp [Slot.store, hold]

theorem cancelled_cancelAll (m : Machine K) (ids : List SlotId) :
    (m.cancelAll ids).cancelled = m.cancelled := by
  induction ids generalizing m with
  | nil => rfl
  | cons id ids ih => exact (ih _).trans (m.cancelled_resolve id cancelledSend)

/-- What cancelling makes of each slot. -/
theorem getElem?_cancelAll (m : Machine K) (ids : List SlotId) (id : SlotId) :
    (m.cancelAll ids).slots[id]?
      = m.slots[id]?.map fun slot => if id ∈ ids then slot.settle cancelledSend else slot := by
  induction ids generalizing m with
  | nil => simp [cancelAll]
  | cons first rest ih =>
      show ((m.resolve first cancelledSend).cancelAll rest).slots[id]? = _
      rw [ih, slots_resolve, List.getElem?_modify, Option.map_eq_map, Option.map_map]
      refine congrArg (Option.map · _) (funext fun slot => ?_)
      by_cases hfirst : first = id
      · subst hfirst
        by_cases hrest : first ∈ rest <;> simp [hrest, Slot.settle_settle]
      · have hne : id ≠ first := fun he => hfirst he.symm
        simp [hfirst, hne]

/-- A slot of which no resolution is under way stays so, and stays as it is once it is done. -/
def Spares (m m' : Machine K) (id : SlotId) : Prop :=
  ∀ slot : Slot, m.slots[id]? = some slot → slot.Whole →
    ∃ slot', m'.slots[id]? = some slot' ∧ slot'.Whole ∧ (slot.done = true → slot' = slot)

theorem Spares.of_eq (h : m'.slots[id]? = m.slots[id]?) : m.Spares m' id :=
  fun slot hslot hwhole => ⟨slot, h.trans hslot, hwhole, fun _ => rfl⟩

theorem Spares.trans {m'' : Machine K} (h : m.Spares m' id) (h' : m'.Spares m'' id) :
    m.Spares m'' id := by
  intro slot hslot hwhole
  obtain ⟨mid, hmid, hmidwhole, hsame⟩ := h slot hslot hwhole
  obtain ⟨last, hlast, hlastwhole, hsame'⟩ := h' mid hmid hmidwhole
  refine ⟨last, hlast, hlastwhole, fun hdone => ?_⟩
  obtain rfl := hsame hdone
  exact hsame' hdone

theorem spares_resolve (m : Machine K) (id i : SlotId) (r : SendResult) :
    m.Spares (m.resolve i r) id := by
  intro slot hslot hwhole
  rw [slots_resolve, List.getElem?_modify, hslot, Option.map_eq_map, Option.map_some]
  by_cases hi : i = id
  · rw [if_pos hi]
    exact ⟨_, rfl, hwhole.settle r, fun hdone => Slot.settle_of_result (hwhole.mp hdone) r⟩
  · rw [if_neg hi]
    exact ⟨_, rfl, hwhole, fun _ => rfl⟩

/-- A resolved slot stays resolved. -/
theorem Spares.isResolved (h : m.Spares m' id) (hslot : m.slots[id]? = some slot)
    (hwhole : slot.Whole) (hres : m.isResolved id = true) : m'.isResolved id = true := by
  obtain ⟨slot', hslot', -, hsame⟩ := h slot hslot hwhole
  rw [isResolved_of_slot hslot] at hres
  rw [isResolved_of_slot hslot', hsame hres, hres]

end Machine

/-! ## Transfers that are cancelled -/

section

variable {m : Machine K} {link : Link}

theorem Transfer.run_checkpoint_cancelled (h : link.owner ∈ m.cancelled) :
    (checkpoint link).run m = (.error (.socket ⟨.write, .cancelled⟩), m) := by
  unfold checkpoint
  rw [run_get_bind, if_pos (List.contains_iff_mem.mpr h)]
  rfl

variable [Kernel K]

/-- A cancelled transfer changes nothing. It ends by an error, or by a report of nothing. -/
theorem Transfer.run_cancelled (parcel : Parcel) (h : link.owner ∈ m.cancelled) :
    ∃ r : SendResult, (Transfer.run link parcel false).run m = (r.mapError .socket, m) := by
  have hstop := run_checkpoint_cancelled h
  unfold Transfer.run
  cases link.kind with
  | datagram => exact ⟨cancelledSend, run_bind_of_error (run_bind_of_error hstop)⟩
  | stream =>
      dsimp only
      cases hwire : streamWire parcel with
      | nil =>
          rw [stream]
          exact ⟨.ok ⟨parcel.payloadBytes, 0, 0⟩, rfl⟩
      | cons b tail =>
          rw [stream]
          exact ⟨cancelledSend, run_bind_of_error (run_bind_of_error (run_bind_of_error hstop))⟩

/-- **A job that runs after its socket was closed** lets go of its descriptors, and does nothing
else. -/
theorem Job.run_cancelled {job : Job} {slot : Slot} (h : job.link.owner ∈ m.cancelled)
    (hslot : m.slots[job.slot]? = some slot) (hresult : slot.result ≠ none) :
    job.run m = (none, job.letGo m) := by
  obtain ⟨r, hrun⟩ := Transfer.run_cancelled job.parcel h
  have hsame : ∀ r : SendResult, m.resolve job.slot r = m :=
    Machine.resolve_of_result hslot hresult
  unfold run
  rw [hrun]
  cases r with
  | ok report =>
      show (none, job.letGo (m.resolve job.slot (.ok report))) = _
      rw [hsame]
  | error e =>
      show (none, job.letGo (m.resolve job.slot (.error e))) = _
      rw [hsame]

end

/-! ## A socket and its handles -/

/-- A socket with the handles that it has given out and the jobs that wait to run. -/
structure Sender (K : Type) where
  machine : Machine K
  socket : Socket
  /-- The slots of its handles, in the order of their sends. -/
  handles : List SlotId
  /-- Its jobs that have neither run nor been dropped. -/
  jobs : List Job

namespace Sender

/-- The handles that are not resolved. -/
def unresolved (w : Sender K) : List SlotId := w.handles.filter (!w.machine.isResolved ·)

/-- What happens around a socket leaves its handles alone, and does not close it. -/
structure Around (w : Sender K) (machine : Machine K) (socket : Socket) : Prop where
  pending : socket.pending = w.socket.pending
  number : socket.number = w.socket.number
  closed : socket.state = .closed → w.socket.state = .closed
  slots : ∀ id ∈ w.handles, machine.slots[id]? = w.machine.slots[id]?
  cancelled : ∀ number ∈ w.machine.cancelled, number ∈ machine.cancelled

section

variable [Kernel K]

/-- The socket starts to send a payload. -/
def dispatch (w : Sender K) (p : Payload) (options : SendOptions) (callback : Bool) : Sender K :=
  let (started, machine) := w.socket.dispatch p options callback w.machine
  ⟨machine, started.socket, w.handles ++ [started.slot], w.jobs ++ started.job.toList⟩

/-- A job runs, and is gone. -/
def runJob (w : Sender K) (i : Nat) (job : Job) : Sender K :=
  { w with machine := (job.run w.machine).2, jobs := w.jobs.eraseIdx i }

/-- A job is dropped before it ran. -/
def dropJob (w : Sender K) (i : Nat) (job : Job) : Sender K :=
  { w with machine := job.drop w.machine, jobs := w.jobs.eraseIdx i }

def close (w : Sender K) : Sender K :=
  let (_, socket, machine) := w.socket.close w.machine
  { w with machine, socket }

/-- What may happen. -/
inductive Step : Sender K → Sender K → Prop where
  | dispatch (w : Sender K) (p : Payload) (options : SendOptions) (callback : Bool) :
      Step w (w.dispatch p options callback)
  | runJob (w : Sender K) {i : Nat} {job : Job} : w.jobs[i]? = some job → Step w (w.runJob i job)
  | dropJob (w : Sender K) {i : Nat} {job : Job} : w.jobs[i]? = some job → Step w (w.dropJob i job)
  | close (w : Sender K) : Step w w.close
  /-- Other calls on the socket, and whatever else its program does. -/
  | elsewhere (w : Sender K) {machine : Machine K} {socket : Socket} :
      w.Around machine socket → Step w { w with machine, socket }

/-- A state that sends of a socket may come to. -/
abbrev Reaches (w w' : Sender K) : Prop := Relation.ReflTransGen Step w w'

end

/-- What the socket keeps of its handles. -/
structure Tracked (w : Sender K) : Prop where
  /-- The pending list is as good as all handles. -/
  unresolved : w.socket.pending.filter (!w.machine.isResolved ·) = w.unresolved
  pending : ∀ id ∈ w.socket.pending, id ∈ w.handles
  whole : ∀ id ∈ w.handles, ∃ slot, w.machine.slots[id]? = some slot ∧ slot.Whole
  nodup : w.handles.Nodup
  jobs : ∀ job ∈ w.jobs, job.slot ∈ w.handles ∧ job.link.owner = w.socket.number
  closed : w.socket.state = .closed →
    w.socket.number ∈ w.machine.cancelled ∧ ∀ id ∈ w.handles, w.machine.isResolved id = true

variable {w w' : Sender K}

/-! ## One step -/

/-- Filtering more strictly may as well be done afterwards. -/
theorem filter_of_imp {p q : SlotId → Bool} {ids : List SlotId}
    (h : ∀ id ∈ ids, q id = true → p id = true) : ids.filter q = (ids.filter p).filter q := by
  rw [List.filter_filter]
  refine List.filter_congr fun id hid => ?_
  cases hq : q id with
  | false => rfl
  | true => rw [h id hid hq]; rfl

/-- A step that gives out no handle: slots may be resolved, and jobs may go. -/
theorem Tracked.move (h : Tracked w) {machine : Machine K} {socket : Socket} {jobs : List Job}
    (hpending : socket.pending = w.socket.pending) (hnumber : socket.number = w.socket.number)
    (hclosed : socket.state = .closed → w.socket.state = .closed)
    (hslots : ∀ id ∈ w.handles, w.machine.Spares machine id)
    (hcancelled : ∀ number ∈ w.machine.cancelled, number ∈ machine.cancelled)
    (hjobs : jobs ⊆ w.jobs) :
    Tracked ⟨machine, socket, w.handles, jobs⟩ := by
  have hresolved : ∀ id ∈ w.handles, w.machine.isResolved id = true →
      machine.isResolved id = true := by
    intro id hid hres
    obtain ⟨slot, hslot, hwhole⟩ := h.whole id hid
    exact (hslots id hid).isResolved hslot hwhole hres
  have hopen : ∀ id ∈ w.handles, (!machine.isResolved id) = true →
      (!w.machine.isResolved id) = true := by
    intro id hid hnew
    cases hold : w.machine.isResolved id with
    | false => rfl
    | true => rw [hresolved id hid hold] at hnew; exact absurd hnew (by simp)
  refine ⟨?_, ?_, fun id hid => ?_, h.nodup, fun job hjob => ?_, fun hc => ?_⟩
  · show socket.pending.filter (!machine.isResolved ·) = w.handles.filter (!machine.isResolved ·)
    rw [hpending, filter_of_imp fun id hid => hopen id (h.pending id hid), filter_of_imp hopen]
    exact congrArg _ h.unresolved
  · rw [hpending]
    exact h.pending
  · obtain ⟨slot, hslot, hwhole⟩ := h.whole id hid
    obtain ⟨slot', hslot', hwhole', -⟩ := hslots id hid slot hslot hwhole
    exact ⟨slot', hslot', hwhole'⟩
  · rw [hnumber]
    exact h.jobs job (hjobs hjob)
  · obtain ⟨hmem, hall⟩ := h.closed (hclosed hc)
    rw [hnumber]
    exact ⟨hcancelled _ hmem, fun id hid => hresolved id hid (hall id hid)⟩

/-- A job that goes may resolve slots, and does nothing else to the socket. -/
theorem Tracked.work (h : Tracked w) {i : Nat} {machine : Machine K}
    (hspares : ∀ id, w.machine.Spares machine id)
    (hcancelled : machine.cancelled = w.machine.cancelled) :
    Tracked { w with machine, jobs := w.jobs.eraseIdx i } :=
  h.move rfl rfl id (fun id _ => hspares id) (fun _ hmem => hcancelled.symm ▸ hmem)
    List.eraseIdx_subset

/-- A handle is given out whose send failed at once. -/
theorem Tracked.refuse (h : Tracked w) {id : SlotId} {slot : Slot} (hid : id ∉ w.handles)
    (hslot : w.machine.slots[id]? = some slot) (hwhole : slot.Whole) (hdone : slot.done = true) :
    Tracked { w with handles := w.handles ++ [id] } := by
  have hres : w.machine.isResolved id = true := (Machine.isResolved_of_slot hslot).trans hdone
  refine ⟨?_, fun i hi => List.mem_append_left _ (h.pending i hi), fun i hi => ?_, ?_,
    fun job hjob => ?_, fun hc => ?_⟩
  · have hnone : [id].filter (!w.machine.isResolved ·) = [] := by simp [hres]
    show w.socket.pending.filter _ = (w.handles ++ [id]).filter _
    rw [List.filter_append, hnone, List.append_nil]
    exact h.unresolved
  · rcases List.mem_append.mp hi with hi | hi
    · exact h.whole i hi
    · exact ⟨slot, List.mem_singleton.mp hi ▸ hslot, hwhole⟩
  · exact (List.perm_append_singleton id w.handles).nodup_iff.mpr
      (List.nodup_cons.mpr ⟨hid, h.nodup⟩)
  · obtain ⟨hmem, howner⟩ := h.jobs job hjob
    exact ⟨List.mem_append_left _ hmem, howner⟩
  · obtain ⟨hmem, hall⟩ := h.closed hc
    refine ⟨hmem, fun i hi => ?_⟩
    rcases List.mem_append.mp hi with hi | hi
    · exact hall i hi
    · exact List.mem_singleton.mp hi ▸ hres

/-- A handle is given out with a job that owes it a result. -/
theorem Tracked.note (h : Tracked w) {id : SlotId} {slot : Slot} {job : Job} (hid : id ∉ w.handles)
    (hslot : w.machine.slots[id]? = some slot) (hwhole : slot.Whole) (hopen : slot.done = false)
    (hjob : job.slot = id) (howner : job.link.owner = w.socket.number)
    (hstate : w.socket.state ≠ .closed) :
    Tracked { w with socket := w.socket.register w.machine id, handles := w.handles ++ [id]
                     jobs := w.jobs ++ [job] } := by
  have hkept : [id].filter (!w.machine.isResolved ·) = [id] := by
    simp [Machine.isResolved_of_slot hslot, hopen]
  have hregister : (w.socket.register w.machine id).pending = w.unresolved ++ [id] := by
    rw [← h.unresolved]
    rfl
  refine ⟨?_, fun i hi => ?_, fun i hi => ?_, ?_, fun other hother => ?_,
    fun hc => absurd hc hstate⟩
  · -- what the list forgets is resolved
    show (w.socket.register w.machine id).pending.filter _ = (w.handles ++ [id]).filter _
    rw [hregister, List.filter_append, List.filter_append, hkept]
    unfold Sender.unresolved
    simp
  · rw [hregister] at hi
    exact (List.mem_append.mp hi).elim
      (fun hi => List.mem_append_left _ (List.mem_filter.mp hi).1) (List.mem_append_right _)
  · rcases List.mem_append.mp hi with hi | hi
    · exact h.whole i hi
    · exact ⟨slot, List.mem_singleton.mp hi ▸ hslot, hwhole⟩
  · exact (List.perm_append_singleton id w.handles).nodup_iff.mpr
      (List.nodup_cons.mpr ⟨hid, h.nodup⟩)
  · rcases List.mem_append.mp hother with hother | hother
    · obtain ⟨hmem, hown⟩ := h.jobs other hother
      exact ⟨List.mem_append_left _ hmem, hown⟩
    · rw [List.mem_singleton.mp hother, hjob]
      exact ⟨List.mem_append_right _ List.mem_cons_self, howner⟩

variable [Kernel K]

theorem tracked_dispatch (h : Tracked w) (p : Payload) (options : SendOptions) (callback : Bool) :
    Tracked (w.dispatch p options callback) := by
  cases hrun : w.socket.dispatch p options callback w.machine with
  | mk started machine =>
      obtain ⟨hid, hcancelled, -, slot, hslots, hwhole, hstarted⟩ :=
        w.socket.dispatch_noted p options callback hrun
      have hdispatch : w.dispatch p options callback = ⟨machine, started.socket,
          w.handles ++ [started.slot], w.jobs ++ started.job.toList⟩ := by
        unfold dispatch
        rw [hrun]
      have hbefore : ∀ id ∈ w.handles, id < w.machine.slots.length := by
        intro id hid
        obtain ⟨old, hold, -⟩ := h.whole id hid
        exact (List.getElem?_eq_some_iff.mp hold).1
      -- the new slot stands behind those of older handles
      have hsame : Tracked { w with machine } := by
        refine h.move rfl rfl id (fun i hi => .of_eq ?_) (fun _ hmem => hcancelled.symm ▸ hmem)
          (List.Subset.refl _)
        rw [hslots, List.getElem?_append_left (hbefore i hi)]
      have hfresh : w.machine.slots.length ∉ w.handles :=
        fun hmem => Nat.lt_irrefl _ (hbefore _ hmem)
      have hnew : machine.slots[w.machine.slots.length]? = some slot := by
        rw [hslots, List.getElem?_concat_length]
      rw [hdispatch, hid]
      rcases hstarted with ⟨hjob, hsocket, hdone⟩
        | ⟨job, hjob, hjobslot, howner, hstate, hopen, hsocket⟩
      · rw [hjob, hsocket, Option.toList_none, List.append_nil]
        exact hsame.refuse hfresh hnew hwhole hdone
      · rw [hjob, hsocket, Option.toList_some]
        exact hsame.note hfresh hnew hwhole hopen hjobslot howner hstate

end Sender

namespace Job

variable [Kernel K]

/-- What becomes of slots before a job lets go of its descriptors. -/
theorem spares_letGo (job : Job) {m m₁ : Machine K} (hspares : ∀ id, m.Spares m₁ id)
    (hcancelled : m₁.cancelled = m.cancelled) :
    (∀ id, m.Spares (job.letGo m₁) id) ∧ (job.letGo m₁).cancelled = m.cancelled := by
  obtain ⟨kernel, held, hframe, -⟩ := job.letGo_frame m₁
  rw [hframe]
  exact ⟨fun id => (hspares id).trans (.of_eq rfl), hcancelled⟩

/-- A run of a job resolves slots at most. -/
theorem spares_run (job : Job) (m : Machine K) :
    (∀ id, m.Spares (job.run m).2 id) ∧ (job.run m).2.cancelled = m.cancelled := by
  cases htransfer : (Transfer.run job.link job.parcel false).run m with
  | mk answer m₁ =>
      obtain ⟨hmoves, -⟩ := Transfer.isPaced_run _ _ _ htransfer
      have hframe : (∀ id, m.Spares m₁ id) ∧ m₁.cancelled = m.cancelled := by
        rw [hmoves.frame]
        exact ⟨fun id => .of_eq rfl, rfl⟩
      have hsettled := fun r : SendResult => job.spares_letGo
        (fun id => (hframe.1 id).trans (m₁.spares_resolve id job.slot r))
        ((m₁.cancelled_resolve job.slot r).trans hframe.2)
      have hleft := job.spares_letGo hframe.1 hframe.2
      unfold run
      rw [htransfer]
      cases answer with
      | ok report => exact hsettled (.ok report)
      | error failure =>
          cases failure with
          | socket e => exact hsettled (.error e)
          | config e => exact hleft
          | fault f => exact hleft

end Job

namespace Sender

variable [Kernel K] {w w' : Sender K}

theorem close_of_closed (h : w.socket.state = .closed) : w.close = w := by
  unfold close Socket.close
  rw [if_pos (by rw [h]; rfl)]

theorem close_of_open (h : w.socket.state ≠ .closed) :
    w.close = { w with machine := (w.socket.closing w.machine).2
                       socket := w.socket.afterClose } := by
  unfold close Socket.close
  rw [if_neg (by simpa using h)]

/-- What closing makes of the slot of each handle. -/
theorem slots_close (h : Tracked w) {id : SlotId} {slot : Slot} (hid : id ∈ w.handles)
    (hslot : w.machine.slots[id]? = some slot) (hwhole : slot.Whole) :
    w.close.machine.slots[id]?
      = some (if slot.done then slot else ⟨some cancelledSend, false, true⟩) := by
  have hres := Machine.isResolved_of_slot hslot
  by_cases hclosed : w.socket.state = .closed
  · -- a closed socket has no open handle
    have hdone := (h.closed hclosed).2 id hid
    rw [hres] at hdone
    rw [close_of_closed hclosed, if_pos hdone]
    exact hslot
  · obtain ⟨kernel, held, hframe⟩ := w.socket.closing_frame w.machine
    rw [close_of_open hclosed]
    show (w.socket.closing w.machine).2.slots[id]? = _
    rw [hframe]
    refine (Machine.getElem?_cancelAll _ _ id).trans ?_
    rw [hslot, Option.map_some]
    cases hdone : slot.done with
    | true =>
        have hspares := Slot.settle_of_result (hwhole.mp hdone) cancelledSend
        rw [hspares, ite_self, if_pos rfl]
    | false =>
        -- an open handle is on the pending list
        have hopen : id ∈ w.unresolved := List.mem_filter.mpr ⟨hid, by rw [hres, hdone]; rfl⟩
        rw [← h.unresolved] at hopen
        rw [if_pos (List.mem_filter.mp hopen).1, Slot.settle_of_open hwhole hdone, if_neg (by simp)]

theorem tracked_close (h : Tracked w) : Tracked w.close := by
  have hall : ∀ id ∈ w.handles, w.close.machine.isResolved id = true := by
    intro id hid
    obtain ⟨slot, hslot, hwhole⟩ := h.whole id hid
    rw [Machine.isResolved_of_slot (slots_close h hid hslot hwhole)]
    cases hdone : slot.done <;> simp [hdone]
  have hwhole : ∀ id ∈ w.handles, ∃ slot, w.close.machine.slots[id]? = some slot ∧ slot.Whole := by
    intro id hid
    obtain ⟨slot, hslot, hwhole⟩ := h.whole id hid
    refine ⟨_, slots_close h hid hslot hwhole, ?_⟩
    split
    · exact hwhole
    · simp [Slot.Whole]
  by_cases hclosed : w.socket.state = .closed
  · rwa [close_of_closed hclosed]
  · rw [close_of_open hclosed] at hall hwhole ⊢
    have hcancelled : w.socket.number ∈ (w.socket.closing w.machine).2.cancelled := by
      obtain ⟨kernel, held, hframe⟩ := w.socket.closing_frame w.machine
      rw [hframe]
      show w.socket.number ∈ Machine.cancelled (Machine.cancelAll _ _)
      rw [Machine.cancelled_cancelAll]
      exact List.mem_cons_self
    refine ⟨?_, by simp [Socket.afterClose], hwhole, h.nodup, h.jobs, fun _ => ⟨hcancelled, hall⟩⟩
    refine (List.filter_eq_nil_iff.mpr fun id hid => ?_).symm
    simpa using hall id hid

/-- **Every step keeps track.** -/
theorem tracked_step (h : Tracked w) (hs : Step w w') : Tracked w' := by
  cases hs with
  | dispatch p options callback => exact tracked_dispatch h p options callback
  | @runJob i job hjob =>
      obtain ⟨hspares, hcancelled⟩ := job.spares_run w.machine
      exact h.work hspares hcancelled
  | @dropJob i job hjob =>
      obtain ⟨hspares, hcancelled⟩ := job.spares_letGo
        (fun id => w.machine.spares_resolve id job.slot cancelledSend)
        (w.machine.cancelled_resolve job.slot cancelledSend)
      exact h.work hspares hcancelled
  | close => exact tracked_close h
  | elsewhere hs =>
      exact h.move hs.pending hs.number hs.closed (fun id hid => .of_eq (hs.slots id hid))
        hs.cancelled (List.Subset.refl _)

theorem tracked_reaches (h : Tracked w) (hs : Reaches w w') : Tracked w' := by
  induction hs with
  | refl => exact h
  | tail _ hstep ih => exact tracked_step ih hstep

/-- **Pending sends are the open handles, closing cancels them, and a cancelled job does nothing.**
Of a socket that is new and open, after whatever has happened to it and its sends:

* it counts as pending the handles that it has given out and that are not resolved;
* if it is closed, each of these has the cancelled result, and all others have the result they had;
* once it is closed, a job that runs resolves nothing, calls nobody and draws on no quota. All that
  the kernel may be asked for is to close what the job held: the copy of a descriptor that was to go
  along, and the socket's descriptor. -/
theorem pending_cancelled {m : Machine K} {s : Socket} (hnew : s.pending = [])
    (hopen : s.state ≠ .closed) (h : Reaches ⟨m, s, [], []⟩ w) :
    (w.handles.Nodup ∧ w.socket.pendingSends w.machine = w.unresolved.length)
      ∧ (∀ id ∈ w.handles, ∃ slot, w.machine.slots[id]? = some slot
        ∧ w.close.machine.slots[id]?
          = some (if slot.done then slot else ⟨some cancelledSend, false, true⟩))
      ∧ (w.socket.state = .closed → ∀ job ∈ w.jobs, ∃ kernel held,
        job.run w.machine = (none, { w.machine with kernel, held })
          ∧ (kernel = job.parcel.closePass w.machine.kernel ∨ kernel
            = (Kernel.close job.link.descriptor (job.parcel.closePass w.machine.kernel)).2)) := by
  have hstart : Tracked (⟨m, s, [], []⟩ : Sender K) :=
    ⟨by rw [hnew]; rfl, by simp [hnew], by simp, List.nodup_nil, by simp,
      fun hclosed => absurd hclosed hopen⟩
  have htracked := tracked_reaches hstart h
  refine ⟨⟨htracked.nodup, ?_⟩, fun id hid => ?_, fun hclosed job hjob => ?_⟩
  · rw [← htracked.unresolved]
    rfl
  · obtain ⟨slot, hslot, hwhole⟩ := htracked.whole id hid
    exact ⟨slot, hslot, slots_close htracked hid hslot hwhole⟩
  · obtain ⟨hcancelled, hall⟩ := htracked.closed hclosed
    obtain ⟨hid, howner⟩ := htracked.jobs job hjob
    obtain ⟨slot, hslot, hwhole⟩ := htracked.whole job.slot hid
    have hdone : slot.done = true := by
      rw [← Machine.isResolved_of_slot hslot]
      exact hall _ hid
    have hrun := Job.run_cancelled (howner.symm ▸ hcancelled) hslot (hwhole.mp hdone)
    obtain ⟨kernel, held, hframe, hkernel⟩ := job.letGo_frame w.machine
    exact ⟨kernel, held, by rw [hrun, hframe], hkernel⟩

/-- A stream whose two sends wait to run, one with a callback and one of no octets. -/
def waiting : Sender Host :=
  ((⟨{ Machine.start Host.pair with held := [0] }, .endOf 0 none, [], []⟩ : Sender Host).dispatch
    (.single [1, 2]) ⟨0, none⟩ true).dispatch (.single []) ⟨0, none⟩ false

theorem reaches_waiting :
    Reaches ⟨{ Machine.start Host.pair with held := [0] }, .endOf 0 none, [], []⟩ waiting :=
  .tail (.single (.dispatch _ _ _ _)) (.dispatch _ _ _ _)

/-- Both are pending; closing the stream cancels both, and then their jobs do nothing. -/
theorem pending_cancelled_waiting :
    waiting.socket.pendingSends waiting.machine = 2
      ∧ (∀ id ∈ [0, 1], ∃ slot, waiting.machine.slots[id]? = some slot
        ∧ waiting.close.machine.slots[id]?
          = some (if slot.done then slot else ⟨some cancelledSend, false, true⟩))
      ∧ waiting.close.jobs.length = 2
      ∧ ∀ job ∈ waiting.close.jobs, ∃ kernel held,
        job.run waiting.close.machine = (none, { waiting.close.machine with kernel, held })
          ∧ (kernel = job.parcel.closePass waiting.close.machine.kernel ∨ kernel
            = (Kernel.close job.link.descriptor
              (job.parcel.closePass waiting.close.machine.kernel)).2) := by
  obtain ⟨⟨-, hcount⟩, hclose, -⟩ := pending_cancelled rfl (by decide) reaches_waiting
  obtain ⟨-, -, hjobs⟩ := pending_cancelled rfl (by decide) (.tail reaches_waiting (.close _))
  have htwo : waiting.unresolved.length = 2 := by decide +kernel
  exact ⟨hcount.trans htwo, hclose, by decide +kernel, hjobs (by decide +kernel)⟩

end Sender

end PacedNet
