import PacedNet.Proofs.Socket.Channel
import PacedNet.Proofs.Socket.History
import PacedNet.Proofs.Socket.Inbox

/-!
# What each step has taken

Operations on one socket may be on their way at the same time, and each of their steps takes from the
front of what lies before the socket, if it takes anything (`Operation.isTaking_script`). So what all
steps have taken, one after the other, and what lies there now are what lay there at first and what
has arrived since (`Traffic.leaves_reaches`).
-/

namespace PacedNet

variable {K : Type} {kind : Kind} {d : Descriptor} {up : K → Prop}
  {queue : K → List (List UInt8)}

/-- A step, with what it has taken. -/
structure Take (K : Type) where
  moment : Moment K
  taken : List (List UInt8)

/-- What was taken was at the front, and the rest was left. -/
def Take.Fits (kind : Kind) (queue : K → List (List UInt8)) (x : Take K) : Prop :=
  kind.Leaves (queue x.moment.before.kernel) x.taken (queue x.moment.after.kernel)

/-- What steps have taken, all together. -/
def Tally (kind : Kind) (queue : K → List (List UInt8)) (own : List (Moment K))
    (taken : List (List UInt8)) : Prop :=
  ∃ takes : List (Take K), takes.map Take.moment = own ∧ (∀ x ∈ takes, x.Fits kind queue)
    ∧ takes.flatMap Take.taken = taken

theorem tally_nil : Tally kind queue [] [] := ⟨[], rfl, by simp, rfl⟩

theorem Machine.Takes.tally {taken : List (List UInt8)} {m m' : Machine K}
    (h : Machine.Takes kind up queue taken m m') (event : Event) :
    Tally kind queue [⟨m, event, m'⟩] taken := by
  refine ⟨[⟨⟨m, event, m'⟩, taken⟩], rfl, fun x hx => ?_, List.flatMap_singleton _ _⟩
  obtain rfl := List.mem_singleton.mp hx
  exact h.leaves

theorem Tally.append {own more : List (Moment K)} {taken rest : List (List UInt8)}
    (h : Tally kind queue own taken) (h' : Tally kind queue more rest) :
    Tally kind queue (own ++ more) (taken ++ rest) := by
  obtain ⟨takes, rfl, hfits, rfl⟩ := h
  obtain ⟨takes', rfl, hfits', rfl⟩ := h'
  exact ⟨takes ++ takes', List.map_append, List.forall_mem_append.mpr ⟨hfits, hfits'⟩,
    List.flatMap_append⟩

/-- Of a stream nothing was taken if no octet was. -/
theorem Tally.none {own : List (Moment K)} {taken : List (List UInt8)}
    (h : Tally .stream queue own taken) (hnil : taken.flatten = []) :
    Tally .stream queue own [] := by
  obtain ⟨takes, rfl, hfits, rfl⟩ := h
  refine ⟨takes.map fun x => ⟨x.moment, []⟩, by simp, fun x hx => ?_, by simp⟩
  obtain ⟨y, hy, rfl⟩ := List.mem_map.mp hx
  obtain ⟨arrived, hsame⟩ := hfits y hy
  have hnone : y.taken.flatten = [] := by
    refine List.flatten_eq_nil_iff.mpr fun octets hoctets => ?_
    exact List.flatten_eq_nil_iff.mp hnil octets (List.mem_flatMap.mpr ⟨y, hy, hoctets⟩)
  have hrest : (y.taken ++ queue y.moment.after.kernel).flatten
      = (queue y.moment.after.kernel).flatten := by
    rw [List.flatten_append, hnone, List.nil_append]
  exact ⟨arrived, Eq.trans hsame hrest⟩

namespace Script

variable {α β : Type}

/-- Each step takes from the front at most, as long as others leave the socket up. -/
def IsTaking (kind : Kind) (up : K → Prop) (queue : K → List (List UInt8)) (s : Script K α) :
    Prop :=
  ∀ seen, s.Keeps (fun m => up m.kernel)
    (fun _ x => ∃ taken, (Take.mk x taken).Fits kind queue) (fun _ _ => True) seen

theorem isTaking_ended (answer : Except Failure α) :
    (ended answer : Script K α).IsTaking kind up queue := fun _ => trivial

theorem IsTaking.bind {s : Script K α} {f : α → Script K β} (hs : s.IsTaking kind up queue)
    (hf : ∀ a, (f a).IsTaking kind up queue) : (s >>= f).IsTaking kind up queue := fun seen =>
  keeps_seq (hs seen) hf

theorem isTaking_ite {p : Prop} [Decidable p] {s t : Script K α} (hs : s.IsTaking kind up queue)
    (ht : t.IsTaking kind up queue) : (if p then s else t).IsTaking kind up queue := by
  split
  · exact hs
  · exact ht

theorem isTaking_step {event : Machine K → Except Failure α → Event} {act : Act K α}
    (hact : act.IsTaking kind up queue) : (step event act).IsTaking kind up queue := fun _ =>
  keeps_step fun _ _ _ hm h => by
    obtain ⟨taken, htakes⟩ := hact hm h
    exact ⟨htakes.up, ⟨taken, htakes.leaves⟩, trivial⟩

theorem isTaking_paceWhole (stage : Stage) (quota : Option QuotaId) (bytes : Nat) :
    (paceWhole stage quota bytes : Script K Nat).IsTaking kind up queue :=
  isTaking_step fun _ _ _ hup h => ⟨[], Act.takes_paceWhole hup h⟩

theorem isTaking_pace (stage : Stage) (quota : Option QuotaId) (bytes : Nat) :
    (pace stage quota bytes : Script K Nat).IsTaking kind up queue := by
  have hsize : (size quota bytes : Script K Nat).IsTaking kind up queue := fun _ _ hm =>
    ⟨hm, ⟨[], Kind.leaves_refl _⟩, trivial⟩
  exact hsize.bind fun _ => isTaking_paceWhole _ _ _

/-- What a socket's link is needed for. -/
theorem isTaking_link {s : Socket} (hd : s.descriptor = some d) {stage : Stage}
    {allowed : State → Bool} {f : Link → Script K α}
    (h : ∀ link, link.descriptor = d → (f link).IsTaking kind up queue) :
    (ofExcept (s.link stage allowed) >>= f).IsTaking kind up queue := by
  cases hlink : s.link stage allowed with
  | error e => exact isTaking_ended _
  | ok link => exact h link (congrArg Link.descriptor (Socket.link_eq_ok hd hlink))

theorem isTaking_checkpoint (link : Link) :
    (checkpoint link : Script K Unit).IsTaking kind up queue :=
  isTaking_step fun _ _ _ hup h =>
    ⟨[], Machine.takes_of_kernel (by rw [Transfer.run_checkpoint h]) hup⟩

variable [Kernel K] {link : Link}

theorem isTaking_send (hK : Kernel.Inbox kind d up queue) (hd : link.descriptor = d)
    (octets : List UInt8) (flags : Nat) (pass : Option OpenFile) :
    (send link octets flags pass : Script K Nat).IsTaking kind up queue := by
  subst hd
  refine isTaking_step fun _ _ _ hup h => ?_
  obtain ⟨lost, htakes, -⟩ := Act.takes_send hK hup h
  exact ⟨lost, htakes⟩

theorem isTaking_receive (hK : Kernel.Inbox kind d up queue) (room : Nat) :
    (receive d room : Script K Incoming).IsTaking kind up queue :=
  isTaking_step (Socket.isTaking_receiveCall hK room)

theorem isTaking_awaitReply (hK : Kernel.Inbox kind d up queue) (hd : link.descriptor = d) :
    (awaitReply link : Script K Unit).IsTaking kind up queue := by
  subst hd
  refine isTaking_step fun m m' r hup h => ?_
  -- whatever is made of what was received, it was taken
  obtain ⟨-, answer, hreceive⟩ := Transfer.call_of_awaitReply h
  cases answer with
  | error e =>
      obtain ⟨hup', hleaves⟩ := hK.refuse hup hreceive
      exact ⟨[], hup', hleaves⟩
  | ok got =>
      obtain ⟨hup', taken, -, hleaves⟩ := hK.receive hup hreceive
      exact ⟨taken, hup', hleaves⟩

theorem isTaking_reply (hK : Kernel.Inbox kind d up queue) (s : Socket)
    (hd : link.descriptor = d) : (reply s link : Script K Unit).IsTaking kind up queue :=
  isTaking_step fun _ _ _ hup h => by
    obtain ⟨lost, htakes, -⟩ := Socket.takes_reply hK hd hup h
    exact ⟨lost, htakes⟩

/-! ### Sends -/

theorem isTaking_transfer (hK : Kernel.Inbox kind d up queue) (hd : link.descriptor = d)
    (parcel : Parcel) (acknowledge : Bool) :
    (transfer link parcel acknowledge : Script K SendReport).IsTaking kind up queue := by
  refine keeps_transfer (fun _ pass rest _ => ?_) (fun _ => ?_) (isTaking_awaitReply hK hd)
    acknowledge
  · exact (isTaking_checkpoint link).bind fun _ => (isTaking_pace _ _ _).bind fun _ =>
      isTaking_send hK hd _ _ _
  · exact (isTaking_checkpoint link).bind fun _ => (isTaking_paceWhole _ _ _).bind fun _ =>
      (isTaking_send hK hd _ _ _).bind fun _ => isTaking_ended _

/-! ### Receives -/

theorem isTaking_readChunk (hK : Kernel.Inbox kind d up queue) (s : Socket)
    (hd : link.descriptor = d) : (readChunk s link : Script K Incoming).IsTaking kind up queue :=
  (isTaking_pace _ _ _).bind fun room => hd ▸ isTaking_receive (hd ▸ hK) room

theorem isTaking_drain (hK : Kernel.Inbox kind d up queue) (s : Socket) (hd : link.descriptor = d)
    (bound : Nat) (read : List UInt8) :
    (drain s link bound read : Script K (List UInt8)).IsTaking kind up queue := by
  have hlook : (look link : Script K Bool).IsTaking kind up queue :=
    isTaking_step fun _ _ _ hup h => ⟨[], (Socket.takes_isReady hK hd hup h).1⟩
  induction bound generalizing read with
  | zero => exact isTaking_ended _
  | succ bound ih =>
      exact hlook.bind fun _ => isTaking_ite ((isTaking_readChunk hK s hd).bind fun _ =>
        isTaking_ite (isTaking_ended _) (ih _)) (isTaking_ended _)

theorem isTaking_readUntilEnd (hK : Kernel.Inbox kind d up queue) (s : Socket)
    (hd : link.descriptor = d) (bound : Nat) (read : List UInt8) :
    (readUntilEnd s link bound read : Script K (List UInt8)).IsTaking kind up queue := by
  induction bound generalizing read with
  | zero => exact isTaking_ended _
  | succ bound ih =>
      exact (isTaking_readChunk hK s hd).bind fun _ => isTaking_ite (isTaking_ended _) (ih _)

theorem isTaking_bound (link : Link) (more : Nat) :
    (bound link more : Script K Nat).IsTaking kind up queue := by
  have hask : (step (fun _ _ => .quiet) (Act.ask (Kernel.waiting link.descriptor)) :
      Script K Nat).IsTaking kind up queue :=
    isTaking_step fun m m' r hup h => by
      injection h with _ hm
      exact ⟨[], Machine.takes_of_kernel (by rw [← hm]) hup⟩
  exact hask.bind fun _ => isTaking_ended _

theorem isTaking_readMessage (hK : Kernel.Inbox kind d up queue) (hd : link.descriptor = d) :
    (readMessage link : Script K Incoming).IsTaking kind up queue := by
  have hlook : (step (fun _ _ => .quiet) (Act.call (Kernel.nextLength link.descriptor)
      fun e => ⟨.read, .system e⟩) : Script K Nat).IsTaking kind up queue :=
    isTaking_step fun _ _ _ hup h => ⟨[], Socket.takes_nextLength (hd ▸ hK) hup h⟩
  exact hlook.bind fun _ => (isTaking_paceWhole _ _ _).bind fun _ =>
    (hd ▸ isTaking_receive (hd ▸ hK) _ :
      (receive link.descriptor _ : Script K Incoming).IsTaking kind up queue).bind fun _ =>
      isTaking_ite (isTaking_ended _) (isTaking_ended _)

theorem isTaking_drainAll (hK : Kernel.Inbox kind d up queue) (s : Socket)
    (hd : link.descriptor = d) (more : Nat) (data : List UInt8) :
    (drainAll s link more data : Script K (List UInt8)).IsTaking kind up queue :=
  (isTaking_bound link more).bind fun _ => isTaking_drain hK s hd _ _

/-- A receive ends with a reply. -/
theorem isTaking_ending (hK : Kernel.Inbox kind d up queue) (s : Socket)
    (hd : link.descriptor = d) (answer : α) : (do
      reply s link
      return answer : Script K α).IsTaking kind up queue :=
  (isTaking_reply hK s hd).bind fun _ => isTaking_ended _

theorem isTaking_receiveData (hK : Kernel.Inbox kind d up queue) {s : Socket}
    (hd : s.descriptor = some d) (more : Nat) :
    (receiveData s more : Script K (List UInt8)).IsTaking kind up queue := by
  refine isTaking_link hd fun link hlink => ?_
  cases s.kind with
  | stream =>
      exact (isTaking_readChunk hK s hlink).bind fun first =>
        isTaking_ite ((isTaking_ended _).bind (isTaking_ending hK s hlink))
          ((isTaking_drainAll hK s hlink more _).bind (isTaking_ending hK s hlink))
  | datagram =>
      exact (isTaking_readMessage hK hlink).bind fun message =>
        isTaking_ending hK s hlink message.octets

theorem isTaking_receivePassed (hK : Kernel.Inbox kind d up queue) {s : Socket}
    (hd : s.descriptor = some d) (more : Nat) :
    (receivePassed s more : Script K (List UInt8 × OpenFile)).IsTaking kind up queue := by
  refine isTaking_link hd fun link hlink => ?_
  cases s.kind with
  | stream =>
      refine (isTaking_readChunk hK s hlink).bind fun first => ?_
      cases first.passed with
      | none => exact (isTaking_ended _).bind (isTaking_ending hK s hlink)
      | some file =>
          exact (isTaking_drainAll hK s hlink more _).bind fun data =>
            isTaking_ending hK s hlink (data, file)
  | datagram =>
      refine (isTaking_readMessage hK hlink).bind fun message => ?_
      cases message.passed with
      | none => exact (isTaking_ended _).bind (isTaking_ending hK s hlink)
      | some file => exact isTaking_ending hK s hlink (message.octets, file)

theorem isTaking_receiveToEnd (hK : Kernel.Inbox kind d up queue) {s : Socket}
    (hd : s.descriptor = some d) (more : Nat) :
    (receiveToEnd s more : Script K (List UInt8)).IsTaking kind up queue := by
  refine isTaking_link hd fun link hlink => ?_
  cases s.kind with
  | stream =>
      exact (isTaking_bound link more).bind fun _ => isTaking_readUntilEnd hK s hlink _ _
  | datagram => exact (isTaking_readMessage hK hlink).bind fun _ => isTaking_ended _

end Script

namespace Operation

/-- An operation of a socket with that descriptor, of that kind. -/
structure At (d : Descriptor) (kind : Kind) (s : Socket) (op : Operation) : Prop where
  descriptor : s.descriptor = some d
  kind : s.kind = kind
  carries : ∀ job, op = .carry job → job.link.descriptor = d

/-- **Each step of an operation takes from the front**, if it takes anything. -/
theorem isTaking_script [Kernel K] (hK : Kernel.Inbox kind d up queue) {s : Socket}
    {op : Operation} (hop : op.At d kind s) (more : Nat) :
    (op.script s more : Script K Outcome).IsTaking kind up queue := by
  have hd := hop.descriptor
  cases op with
  | send p options =>
      exact Script.isTaking_link hd fun link hlink =>
        (Script.isTaking_transfer hK hlink _ _).bind fun _ => Script.isTaking_ended _
  | carry job =>
      exact (Script.isTaking_transfer hK (hop.carries job rfl) _ _).bind fun _ =>
        Script.isTaking_ended _
  | receiveData =>
      exact (Script.isTaking_receiveData hK hd more).bind fun _ => Script.isTaking_ended _
  | receiveRecords =>
      exact (Script.isTaking_receiveData hK hd more).bind fun _ => Script.isTaking_ended _
  | receivePassed =>
      exact (Script.isTaking_receivePassed hK hd more).bind fun _ => Script.isTaking_ended _
  | receiveToEnd =>
      exact (Script.isTaking_receiveToEnd hK hd more).bind fun _ => Script.isTaking_ended _

end Operation

/-! ## All steps -/

/-- Steps of which each has taken something can be told what each has taken, and those of one
operation what they are known to have taken. -/
theorem exists_takes {log : List (Moment K)} {own : List (Take K)}
    (hown : (own.map Take.moment).Sublist log) (hfits : ∀ x ∈ own, x.Fits kind queue)
    (hlog : ∀ x ∈ log, ∃ taken, (Take.mk x taken).Fits kind queue) :
    ∃ takes : List (Take K), takes.map Take.moment = log ∧ own.Sublist takes
      ∧ ∀ x ∈ takes, x.Fits kind queue := by
  induction log generalizing own with
  | nil =>
      obtain rfl : own = [] := List.map_eq_nil_iff.mp (List.sublist_nil.mp hown)
      exact ⟨[], rfl, .refl [], hfits⟩
  | cons x log ih =>
      obtain ⟨⟨taken, hx⟩, hrestlog⟩ := List.forall_mem_cons.mp hlog
      rcases List.sublist_cons_iff.mp hown with hrest | ⟨rest, hmap, hrest⟩
      · -- the step is of somebody else
        obtain ⟨takes, rfl, hsub, hall⟩ := ih hrest hfits hrestlog
        exact ⟨⟨x, taken⟩ :: takes, rfl, hsub.cons _, List.forall_mem_cons.mpr ⟨hx, hall⟩⟩
      · obtain ⟨first, own, rfl, rfl, rfl⟩ := List.map_eq_cons_iff.mp hmap
        obtain ⟨hfirst, hfits⟩ := List.forall_mem_cons.mp hfits
        obtain ⟨takes, rfl, hsub, hall⟩ := ih hrest hfits hrestlog
        exact ⟨first :: takes, rfl, hsub.cons_cons _, List.forall_mem_cons.mpr ⟨hfirst, hall⟩⟩

namespace Traffic

/-- The peer may send more, and quotas and whatever else is shared may change. -/
structure Arrives (kind : Kind) (up : K → Prop) (queue : K → List (List UInt8))
    (m m' : Machine K) : Prop where
  up : up m'.kernel
  leaves : kind.Leaves (queue m.kernel) [] (queue m'.kernel)

variable [Kernel K] {c : Traffic K} {m : Machine K}

theorem abides_taking (hK : Kernel.Inbox kind d up queue) (hup : up m.kernel)
    (h : Reaches (Operation.At d kind) (Arrives kind up queue) (start m) c) :
    Abides (fun m => up m.kernel) (fun _ _ _ x => ∃ taken, (Take.mk x taken).Fits kind queue)
      (fun _ _ _ _ => True) c :=
  abides_reaches (fun _ _ more hop => Operation.isTaking_script hK hop more [])
    (fun _ _ _ hm => hm.up) hup h

/-- The socket stays up, and each step takes from the front at most. -/
theorem taking_reaches (hK : Kernel.Inbox kind d up queue) (hup : up m.kernel)
    (h : Reaches (Operation.At d kind) (Arrives kind up queue) (start m) c) :
    ∀ x ∈ c.log, up x.before.kernel ∧ ∃ taken, (Take.mk x taken).Fits kind queue := by
  induction h with
  | refl => exact fun x hx => absurd hx (by simp [start])
  | tail hreach hstep ih =>
      cases hstep with
      | setOut more hop => exact ih
      | proceed hi hnext =>
          intro x hx
          rcases List.mem_append.mp hx with hold | hnew
          · exact ih x hold
          · obtain rfl := List.mem_singleton.mp hnew
            have hall := abides_taking hK hup hreach
            obtain ⟨-, hrule, -⟩ :=
              (hall.tasks _ (List.mem_of_getElem? hi)).proceed hall.state hnext
            exact ⟨hall.state, hrule⟩
      | aside hm => exact ih

/-- **What was taken, and what is still there, is what was there and what has arrived.** -/
theorem leaves_reaches {admits : Socket → Operation → Prop}
    (h : Reaches admits (Arrives kind up queue) (start m) c) {takes : List (Take K)}
    (hlog : takes.map Take.moment = c.log) (hfits : ∀ x ∈ takes, x.Fits kind queue) :
    kind.Leaves (queue m.kernel) (takes.flatMap Take.taken) (queue c.machine.kernel) := by
  induction h generalizing takes with
  | refl =>
      obtain rfl := List.map_eq_nil_iff.mp hlog
      exact Kind.leaves_refl _
  | tail _ hstep ih =>
      cases hstep with
      | setOut more hop => exact ih hlog hfits
      | proceed hi hnext =>
          obtain ⟨earlier, last, rfl, hearlier, hlast⟩ := List.map_eq_append_iff.mp hlog
          obtain ⟨x, _, rfl, hx, hnil⟩ := List.map_eq_cons_iff.mp hlast
          obtain rfl := List.map_eq_nil_iff.mp hnil
          have hbefore := ih hearlier fun y hy => hfits y (List.mem_append_left _ hy)
          have hstep : x.Fits kind queue := hfits x (by simp)
          unfold Take.Fits at hstep
          rw [hx] at hstep
          rw [List.flatMap_append, List.flatMap_singleton]
          exact hbefore.trans hstep
      | aside hm =>
          have hafter := (ih hlog hfits).trans hm.leaves
          rwa [List.append_nil] at hafter

end Traffic

end PacedNet
