import PacedNet.Proofs.Host.Inbox
import PacedNet.Proofs.Socket.Channel
import PacedNet.Proofs.Socket.Delivery
import PacedNet.Proofs.Socket.Interleaving
import Mathlib.Algebra.BigOperators.Group.List.Basic
import Mathlib.Algebra.Order.BigOperators.Group.List
import Mathlib.Data.List.Induction

/-!
# One quota for many sockets

Sockets that share a quota draw on one bucket. However their transfers and receives come between
each other, and however the quota changes meanwhile, no call of the kernel moves more than the
grant that the same operation drew just before it, and on a stream no grant is larger than the
burst by which it was sized (`Metered`). So together they move no more than the bucket was charged
(`Traffic.moved_le_charged`).

Acknowledgements are not paced. One that is sent is no more than that; but where one is awaited an
octet of data may stand, and is taken without a grant (`Traffic.stray_moved`).
-/

namespace PacedNet

variable {K : Type}

/-- A kernel takes no more than it is offered and delivers no more than finds room. -/
structure Kernel.Bounded (K : Type) [Kernel K] : Prop where
  send : ∀ {d : Descriptor} {octets : List UInt8} {flags : Nat} {pass : Option OpenFile} {n : Nat}
    {k : K}, (Kernel.send d octets flags pass k).1 = .ok n → n ≤ octets.length
  receive : ∀ {d : Descriptor} {room : Nat} {got : Incoming} {k : K},
    (Kernel.receive d room k).1 = .ok got → got.octets.length ≤ room

namespace Event

/-- The octets that data moved in a step, acknowledgements apart. -/
def moved : Event → Nat
  | sent _ _ (some n) => n
  | received _ _ (some got) => got.octets.length
  | awaited (some _) => 1
  | _ => 0

/-- The octets taken in the place of acknowledgements. -/
def strays : Event → Nat
  | awaited (some _) => 1
  | _ => 0

/-- What a bucket was charged. -/
def charged : Event → Nat
  | granted n => n
  | _ => 0

/-- A call that moves data. -/
def Moves : Event → Prop
  | sent _ _ _ => True
  | received _ _ _ => True
  | _ => False

end Event

/-- What was done last. -/
def lastEvent (seen : List (Moment K)) : Option Event := seen.getLast?.map Moment.event

@[simp] theorem lastEvent_append (seen : List (Moment K)) (x : Moment K) :
    lastEvent (seen ++ [x]) = some x.event := by
  unfold lastEvent
  rw [List.getLast?_concat]
  rfl

/-- A step that draws on the quota of that number, or moves what was drawn. -/
structure Metered (id : QuotaId) (kind : Kind) (seen : List (Moment K)) (x : Moment K) : Prop where
  /-- What is moved was granted just before. -/
  moves : x.event.Moves → ∃ n, lastEvent seen = some (.granted n) ∧ x.event.moved ≤ n
  /-- A grant is charged to the bucket. On a stream it was sized just before. -/
  grants : ∀ n, x.event = .granted n →
    (∃ q wait, x.before.quotas[id]? = some q ∧ (q.reserve x.before.now n).1 = .granted n wait
      ∧ x.after.quotas[id]? = some (q.reserve x.before.now n).2)
    ∧ (kind = .stream → ∃ burst, lastEvent seen = some (.sized burst) ∧ n ≤ burst)
  /-- A grant is sized by the burst that the quota has at that moment. -/
  sizes : ∀ burst, x.event = .sized burst →
    ∃ q, x.before.quotas[id]? = some q ∧ burst = q.burst

/-- There is a quota of that number. -/
def Machine.Has (id : QuotaId) (m : Machine K) : Prop := id < m.quotas.length

theorem Machine.Moves.has {m m' : Machine K} {id : QuotaId} (h : m.Moves m') (hm : m.Has id) :
    m'.Has id := by
  have hlength := congrArg List.length h.rates
  rw [List.length_map, List.length_map] at hlength
  unfold Machine.Has
  rw [hlength]
  exact hm

/-- A step that neither moves data nor draws on a quota. -/
theorem metered_idle {id : QuotaId} {kind : Kind} {seen : List (Moment K)} {x : Moment K}
    (h : x.event = .quiet ∨ x.event = .replied ∨ ∃ stray, x.event = .awaited stray) :
    Metered id kind seen x := by
  obtain ⟨m, event, m'⟩ := x
  rcases h with rfl | rfl | ⟨stray, rfl⟩ <;>
    exact ⟨fun hmoves => False.elim hmoves, by simp, by simp⟩

namespace Script

variable {α β : Type} {id : QuotaId} {kind : Kind} {seen : List (Moment K)}

/-- All that a script moves is metered, whatever it did before. -/
def IsMetered (id : QuotaId) (kind : Kind) (s : Script K α) : Prop :=
  ∀ seen, s.Keeps (Machine.Has id) (Metered id kind) (fun _ _ => True) seen

theorem isMetered_ended (answer : Except Failure α) :
    (ended answer : Script K α).IsMetered id kind := fun _ => trivial

theorem IsMetered.bind {s : Script K α} {f : α → Script K β} (hs : s.IsMetered id kind)
    (hf : ∀ a, (f a).IsMetered id kind) : (s >>= f).IsMetered id kind := fun seen =>
  keeps_seq (hs seen) hf

theorem isMetered_ite {c : Prop} [Decidable c] {s t : Script K α} (hs : s.IsMetered id kind)
    (ht : t.IsMetered id kind) : (if c then s else t).IsMetered id kind := by
  split
  · exact hs
  · exact ht

/-- A step of an operation that only moves, draws on nothing and moves no data. -/
theorem isMetered_step {event : Machine K → Except Failure α → Event} {act : Act K α}
    (hevent : ∀ m r, event m r = .quiet ∨ event m r = .replied
      ∨ ∃ stray, event m r = .awaited stray)
    (hact : ∀ m r m', act.run m = (r, m') → m.Moves m') :
    (step event act).IsMetered id kind := fun _ =>
  keeps_step fun m r m' hm h => ⟨(hact m r m' h).has hm, metered_idle (hevent m r), trivial⟩

/-- Asking for bytes as one: if they are granted, that is the last thing done. -/
theorem keeps_paceWhole {stage : Stage} {bytes : Nat}
    (hsized : kind = .stream → ∃ burst, lastEvent seen = some (.sized burst) ∧ bytes ≤ burst) :
    (paceWhole stage (some id) bytes : Script K Nat).Keeps (Machine.Has id) (Metered id kind)
      (fun seen answer => ∀ n, answer = .ok n → n = bytes ∧ lastEvent seen = some (.granted n))
      seen := by
  refine keeps_step fun m r m' hm h => ?_
  have hq : m.quotas[id]? = some m.quotas[id] := List.getElem?_eq_getElem hm
  obtain ⟨hmoves, -⟩ := Act.moves_pace (fun q now n => (q.reserve_spec now n).1) h
  rcases Act.run_pace_cases h with ⟨hnone, -⟩ | ⟨id', q, hid, hq', ⟨now, rfl⟩, hgrant⟩
  · exact absurd hq (hnone id _ rfl)
  · obtain rfl := Option.some.inj hid
    have hquota : quotaOf (some id) m = some q := hq'
    refine ⟨hmoves.has hm, ?_⟩
    simp only [hquota]
    rcases hgrant with ⟨-, rfl⟩ | ⟨-, rfl⟩ | ⟨n, wait, hgranted, rfl⟩
    · exact ⟨metered_idle (.inl rfl), by simp⟩
    · exact ⟨metered_idle (.inl rfl), by simp⟩
    · obtain rfl : n = bytes := (q.reserve_spec m.now bytes).2 n wait hgranted
      refine ⟨⟨fun hmoves => False.elim hmoves, fun k hk => ?_, by simp⟩, ?_⟩
      · injection hk with hk
        subst hk
        exact ⟨⟨q, wait, hq', hgranted, List.getElem?_set_self hm⟩, hsized⟩
      · intro k hk
        injection hk with hk
        subst hk
        exact ⟨rfl, lastEvent_append _ _⟩

/-- Asking for bytes: if some are granted, that is the last thing done. -/
theorem keeps_pace {stage : Stage} {bytes : Nat} :
    (pace stage (some id) bytes : Script K Nat).Keeps (Machine.Has id) (Metered id kind)
      (fun seen answer => ∀ n, answer = .ok n → lastEvent seen = some (.granted n)) seen := by
  refine keeps_bind fun m hm => ?_
  have hquota : quotaOf (some id) m = some m.quotas[id] := List.getElem?_eq_getElem hm
  simp only [hquota, Option.elim_some]
  refine ⟨hm, ⟨fun hmoves => False.elim hmoves, by simp, fun burst hburst => ?_⟩, ?_⟩
  · injection hburst with hburst
    exact ⟨_, hquota, hburst.symm⟩
  · refine (keeps_paceWhole fun _ => ⟨_, lastEvent_append _ _, Nat.min_le_right _ _⟩).mono
      fun seen answer hanswer n hn => (hanswer n hn).2

theorem isMetered_call {α : Type} {f : K → Except Errno α × K} {toError : Errno → SocketError} :
    (step (fun _ _ => .quiet) (Act.call f toError)).IsMetered id kind :=
  isMetered_step (fun _ _ => .inl rfl) fun _ _ _ h => (Act.run_call h).1

theorem isMetered_checkpoint (link : Link) :
    (checkpoint link : Script K Unit).IsMetered id kind :=
  isMetered_step (fun _ _ => .inl rfl) fun _ _ _ h => Transfer.run_checkpoint h ▸ .refl _

/-- What a socket's link is needed for. -/
theorem isMetered_link {s : Socket} {stage : Stage} {allowed : State → Bool}
    {f : Link → Script K α} (h : ∀ link, link.quota = s.quota → link.kind = s.kind →
      (f link).IsMetered id kind) :
    (ofExcept (s.link stage allowed) >>= f).IsMetered id kind := by
  cases hlink : s.link stage allowed with
  | error e => exact isMetered_ended _
  | ok link =>
      obtain ⟨-, -, hmade⟩ := Socket.of_link hlink
      exact h link (by rw [hmade]) (by rw [hmade])

variable [Kernel K]

theorem keeps_send (hK : Kernel.Bounded K) {link : Link} {octets : List UInt8} {flags n : Nat}
    {pass : Option OpenFile} (hlast : lastEvent seen = some (.granted n))
    (hfits : octets.length ≤ n) :
    (send link octets flags pass : Script K Nat).Keeps (Machine.Has id) (Metered id kind)
      (fun _ _ => True) seen := by
  refine keeps_step fun m r m' hm h => ?_
  obtain ⟨hmoves, hcases⟩ := Act.run_call_cases h
  refine ⟨hmoves.has hm, ⟨fun _ => ⟨n, hlast, ?_⟩, by simp, by simp⟩, trivial⟩
  rcases hcases with ⟨errno, -, rfl⟩ | ⟨taken, hsend, rfl⟩
  · exact Nat.zero_le _
  · exact (hK.send (congrArg Prod.fst hsend)).trans hfits

theorem keeps_receive (hK : Kernel.Bounded K) {d : Descriptor} {room n : Nat}
    (hlast : lastEvent seen = some (.granted n)) (hfits : room ≤ n) :
    (receive d room : Script K Incoming).Keeps (Machine.Has id) (Metered id kind)
      (fun _ _ => True) seen := by
  refine keeps_step fun m r m' hm h => ?_
  obtain ⟨hmoves, hcases⟩ := Act.run_call_cases h
  refine ⟨hmoves.has hm, ⟨fun _ => ⟨n, hlast, ?_⟩, by simp, by simp⟩, trivial⟩
  rcases hcases with ⟨errno, -, rfl⟩ | ⟨got, hreceive, rfl⟩
  · exact Nat.zero_le _
  · exact (hK.receive (congrArg Prod.fst hreceive)).trans hfits

/-! ## Every operation -/

theorem isMetered_awaitReply (link : Link) :
    (awaitReply link : Script K Unit).IsMetered id kind :=
  isMetered_step (fun _ r => .inr (.inr ⟨strayOf r, rfl⟩)) fun _ _ _ h =>
    (Transfer.call_of_awaitReply h).1

theorem isMetered_reply (s : Socket) (link : Link) :
    (reply s link : Script K Unit).IsMetered id kind := by
  refine isMetered_step (fun _ _ => .inr (.inl rfl)) fun m r m' h => ?_
  rcases Socket.call_of_reply h with rfl | ⟨hmoves, -⟩
  · exact .refl _
  · exact hmoves

theorem isMetered_look (link : Link) : (look link : Script K Bool).IsMetered id kind := by
  refine isMetered_step (fun _ _ => .inl rfl) fun m r m' h => ?_
  injection h with _ hm
  exact hm ▸ m.moves_kernel _

theorem isMetered_bound (link : Link) (more : Nat) :
    (bound link more : Script K Nat).IsMetered id kind :=
  (isMetered_step (fun _ _ => .inl rfl) fun m _ _ h => by
    injection h with _ hm
    exact hm ▸ .refl m).bind fun _ => isMetered_ended _

section

variable {link : Link}

theorem isMetered_round (hK : Kernel.Bounded K) (hquota : link.quota = some id) (flags : Nat)
    (pass : Option OpenFile) (rest : List UInt8) :
    (round link flags pass rest : Script K Nat).IsMetered id kind := by
  refine (isMetered_checkpoint link).bind fun _ seen => ?_
  rw [hquota]
  exact keeps_pace.andThen (fun seen grant hlast => keeps_send hK hlast (List.length_take_le _ _))
    fun _ _ => trivial

theorem isMetered_datagram (hK : Kernel.Bounded K) (hquota : link.quota = some id)
    (parcel : Parcel) :
    (datagram link parcel : Script K SendReport).IsMetered id .datagram := by
  refine (isMetered_checkpoint link).bind fun _ seen => ?_
  rw [hquota]
  refine (keeps_paceWhole (by simp)).andThen (fun seen grant hgranted => ?_) fun _ _ => trivial
  obtain ⟨rfl, hlast⟩ := hgranted
  refine keeps_bind ((keeps_send hK hlast (le_refl _)).mono fun seen answer _ => ?_)
  cases answer <;> trivial

theorem isMetered_transfer (hK : Kernel.Bounded K) (hquota : link.quota = some id)
    (parcel : Parcel) (acknowledge : Bool) :
    (transfer link parcel acknowledge : Script K SendReport).IsMetered id link.kind :=
  keeps_transfer (fun _ pass rest _ => isMetered_round hK hquota _ pass rest)
    (fun hkind => hkind ▸ isMetered_datagram hK hquota parcel) (isMetered_awaitReply link)
    acknowledge

theorem isMetered_readChunk (hK : Kernel.Bounded K) (s : Socket) (hquota : link.quota = some id) :
    (readChunk s link : Script K Incoming).IsMetered id kind := by
  intro seen
  unfold readChunk
  rw [hquota]
  exact keeps_pace.andThen (fun seen room hlast => keeps_receive hK hlast (le_refl _))
    fun _ _ => trivial

theorem isMetered_drain (hK : Kernel.Bounded K) (s : Socket) (hquota : link.quota = some id)
    (bound : Nat) (read : List UInt8) :
    (drain s link bound read : Script K (List UInt8)).IsMetered id kind := by
  induction bound generalizing read with
  | zero => exact isMetered_ended _
  | succ bound ih =>
      refine (isMetered_look link).bind fun ready => isMetered_ite ?_ (isMetered_ended _)
      exact (isMetered_readChunk hK s hquota).bind fun chunk =>
        isMetered_ite (isMetered_ended _) (ih _)

theorem isMetered_readUntilEnd (hK : Kernel.Bounded K) (s : Socket) (hquota : link.quota = some id)
    (bound : Nat) (read : List UInt8) :
    (readUntilEnd s link bound read : Script K (List UInt8)).IsMetered id kind := by
  induction bound generalizing read with
  | zero => exact isMetered_ended _
  | succ bound ih =>
      exact (isMetered_readChunk hK s hquota).bind fun chunk =>
        isMetered_ite (isMetered_ended _) (ih _)

theorem isMetered_drainAll (hK : Kernel.Bounded K) (s : Socket) (hquota : link.quota = some id)
    (more : Nat) (data : List UInt8) :
    (drainAll s link more data : Script K (List UInt8)).IsMetered id kind :=
  (isMetered_bound link more).bind fun _ => isMetered_drain hK s hquota _ _

theorem isMetered_readMessage (hK : Kernel.Bounded K) (hquota : link.quota = some id) :
    (readMessage link : Script K Incoming).IsMetered id .datagram := by
  refine isMetered_call.bind fun length seen => ?_
  rw [hquota]
  refine (keeps_paceWhole (by simp)).andThen (fun seen grant hgranted => ?_) fun _ _ => trivial
  obtain ⟨rfl, hlast⟩ := hgranted
  refine keeps_bind ((keeps_receive hK hlast (le_refl _)).mono fun seen answer _ => ?_)
  cases answer with
  | ok message => exact isMetered_ite (isMetered_ended _) (isMetered_ended _) seen
  | error e => trivial

end

theorem isMetered_receiveData (hK : Kernel.Bounded K) {s : Socket} (hquota : s.quota = some id)
    (more : Nat) : (receiveData s more : Script K (List UInt8)).IsMetered id s.kind := by
  refine isMetered_link fun link hlink hkind => ?_
  rw [hquota] at hlink
  have hend : ∀ data : List UInt8, (do
      reply s link
      return data : Script K (List UInt8)).IsMetered id s.kind := fun data =>
    (isMetered_reply s link).bind fun _ => isMetered_ended _
  cases hsame : s.kind with
  | stream =>
      refine (isMetered_readChunk hK s hlink).bind fun first => ?_
      exact isMetered_ite ((isMetered_ended _).bind (hsame ▸ hend))
        ((isMetered_drainAll hK s hlink more _).bind (hsame ▸ hend))
  | datagram =>
      exact (isMetered_readMessage hK hlink).bind fun message => hsame ▸ hend message.octets

theorem isMetered_receivePassed (hK : Kernel.Bounded K) {s : Socket} (hquota : s.quota = some id)
    (more : Nat) :
    (receivePassed s more : Script K (List UInt8 × OpenFile)).IsMetered id s.kind := by
  refine isMetered_link fun link hlink hkind => ?_
  rw [hquota] at hlink
  have hend : ∀ data : List UInt8 × OpenFile, (do
      reply s link
      return data : Script K (List UInt8 × OpenFile)).IsMetered id s.kind := fun data =>
    (isMetered_reply s link).bind fun _ => isMetered_ended _
  cases hsame : s.kind with
  | stream =>
      refine (isMetered_readChunk hK s hlink).bind fun first => ?_
      cases first.passed with
      | none => exact (isMetered_ended _).bind (hsame ▸ hend)
      | some file =>
          exact (isMetered_drainAll hK s hlink more _).bind fun data => hsame ▸ hend (data, file)
  | datagram =>
      refine (isMetered_readMessage hK hlink).bind fun message => ?_
      cases message.passed with
      | none => exact (isMetered_ended _).bind (hsame ▸ hend)
      | some file => exact hsame ▸ hend (message.octets, file)

theorem isMetered_receiveToEnd (hK : Kernel.Bounded K) {s : Socket} (hquota : s.quota = some id)
    (more : Nat) : (receiveToEnd s more : Script K (List UInt8)).IsMetered id s.kind := by
  refine isMetered_link fun link hlink hkind => ?_
  rw [hquota] at hlink
  cases s.kind with
  | stream => exact (isMetered_bound link more).bind fun _ => isMetered_readUntilEnd hK s hlink _ _
  | datagram => exact (isMetered_readMessage hK hlink).bind fun _ => isMetered_ended _

end Script

namespace Operation

/-- The quota that an operation of a socket draws on. -/
def quota (s : Socket) : Operation → Option QuotaId
  | carry job => job.link.quota
  | _ => s.quota

/-- The kind of socket that it is an operation of. -/
def kind (s : Socket) : Operation → Kind
  | carry job => job.link.kind
  | _ => s.kind

/-- **All that an operation moves is metered.** -/
theorem isMetered_script [Kernel K] (hK : Kernel.Bounded K) {id : QuotaId} (s : Socket)
    (op : Operation) (more : Nat) (hquota : op.quota s = some id) :
    (op.script s more : Script K Outcome).IsMetered id (op.kind s) := by
  cases op with
  | send p options =>
      refine Script.isMetered_link fun link hlink hkind => ?_
      rw [show (send p options).kind s = link.kind from hkind.symm]
      exact (Script.isMetered_transfer hK (hlink.trans hquota) _ _).bind
        fun _ => Script.isMetered_ended _
  | carry job =>
      exact (Script.isMetered_transfer hK hquota _ _).bind fun _ => Script.isMetered_ended _
  | receiveData =>
      exact (Script.isMetered_receiveData hK hquota more).bind fun _ => Script.isMetered_ended _
  | receiveRecords =>
      exact (Script.isMetered_receiveData hK hquota more).bind fun _ => Script.isMetered_ended _
  | receivePassed =>
      exact (Script.isMetered_receivePassed hK hquota more).bind fun _ => Script.isMetered_ended _
  | receiveToEnd =>
      exact (Script.isMetered_receiveToEnd hK hquota more).bind fun _ => Script.isMetered_ended _

end Operation

/-- The host takes all it is offered and delivers no more than finds room. -/
theorem Host.bounded : Kernel.Bounded Host where
  send {d octets flags pass n k} h := by
    have hrun : (Host.send d octets flags pass).run k
        = (.ok n, (Kernel.send d octets flags pass k).2) := Prod.ext h rfl
    rcases send_cases hrun with ⟨e, hno, -⟩ | ⟨hok, -⟩
    · exact absurd hno (by simp)
    · injection hok with hok
      exact hok.le
  receive {d room got k} h := by
    have hrun : (Host.receive d room).run k = (.ok got, (Kernel.receive d room k).2) :=
      Prod.ext h rfl
    cases hs : k.station? d with
    | none =>
        unfold Host.receive at hrun
        obtain ⟨s, k₁, hstation, -⟩ := run_bind_ok hrun
        exact absurd (hs.symm.trans ((run_station hstation).2 s rfl)) (by simp)
    | some s =>
        have hnothing : ∀ {k' : Host}, (nothing d).run k = (.ok got, k') →
            got.octets.length ≤ room := fun h => by
          rw [(run_nothing h).1]
          exact Nat.zero_le _
        cases hkind : s.kind with
        | stream =>
            rcases receive_stream hs hkind hrun with ⟨-, hnone⟩ | ⟨-, hgot, -⟩
            · exact hnothing hnone
            · injection hgot with hgot
              exact hgot ▸ length_takeOctets room s.inbox
        | datagram =>
            rcases receive_datagram hs hkind hrun with
              ⟨e, hno, -⟩ | ⟨-, hnone⟩ | ⟨message, rest, -, hgot, -⟩
            · exact absurd hno (by simp)
            · exact hnothing hnone
            · injection hgot with hgot
              exact hgot ▸ List.length_take_le _ _

/-! ## All together -/

/-- What a list of steps comes to, each counted by `f`. -/
def total (f : Event → Nat) (done : List (Moment K)) : Nat := (done.map fun x => f x.event).sum

@[simp] theorem total_append (f : Event → Nat) (done : List (Moment K)) (x : Moment K) :
    total f (done ++ [x]) = total f done + f x.event := by
  simp [total]

/-- What a grant still allows that was the last thing done. -/
def leftOver (done : List (Moment K)) : Nat := ((lastEvent done).map Event.charged).getD 0

/-- Steps that are metered move no more than they are charged, strays apart. -/
theorem total_moved_le {id : QuotaId} {kind : Kind} {done : List (Moment K)}
    (h : ∀ earlier x later, done = earlier ++ x :: later → Metered id kind earlier x) :
    total Event.moved done + leftOver done
      ≤ total Event.charged done + total Event.strays done := by
  induction done using List.reverseRecOn with
  | nil => exact le_refl _
  | append_singleton done x ih =>
      have hx := h done x [] rfl
      have hbefore := ih fun earlier y later hy =>
        h earlier y (later ++ [x]) (by rw [hy, List.append_assoc, List.cons_append])
      have hleft : leftOver (done ++ [x]) = x.event.charged := by
        unfold leftOver
        rw [lastEvent_append]
        rfl
      rw [total_append, total_append, total_append, hleft]
      by_cases hmoves : x.event.Moves
      · -- what a call moves was left over
        obtain ⟨n, hlast, hfits⟩ := hx.moves hmoves
        have hover : leftOver done = n := by
          unfold leftOver
          rw [hlast]
          rfl
        have hnone : x.event.charged = 0 := by
          revert hmoves
          cases x.event <;> simp [Event.Moves, Event.charged]
        omega
      · have hmoved : x.event.moved = x.event.strays := by
          revert hmoves
          rcases x.event with _ | _ | _ | _ | _ | _ | ⟨_ | _⟩ <;>
            simp [Event.Moves, Event.moved, Event.strays]
        omega

/-- A sum in which one of the terms is another. -/
theorem sum_map_set {α : Type} (f : α → Nat) {l : List α} {i : Nat} {a : α} (hi : l[i]? = some a)
    (b : α) : ((l.set i b).map f).sum + f a = (l.map f).sum + f b := by
  induction l generalizing i with
  | nil => exact absurd hi (by simp)
  | cons head tail ih =>
      cases i with
      | zero =>
          obtain rfl : head = a := Option.some.inj hi
          simp only [List.set_cons_zero, List.map_cons, List.sum_cons]
          omega
      | succ i =>
          have htail := ih hi
          simp only [List.set_cons_succ, List.map_cons, List.sum_cons]
          omega

namespace Traffic

variable {c : Traffic K}

/-- What all operations together have done. -/
def total (c : Traffic K) (f : Event → Nat) : Nat := PacedNet.total f c.log

/-- What the operations of a list have done. -/
def totalOf (f : Event → Nat) (tasks : List (Task K)) : Nat :=
  (tasks.map fun t => PacedNet.total f t.done).sum

/-- A step counts for the operation that does it. -/
theorem total_proceed {i : Nat} {t : Task K} (hi : c.tasks[i]? = some t) (f : Event → Nat)
    (act : Machine K → Event × Machine K) (rest : Machine K → Script K Outcome)
    (h : c.total f = totalOf f c.tasks) :
    (c.proceed i t act rest).total f = totalOf f (c.proceed i t act rest).tasks := by
  let x : Moment K := ⟨c.machine, (act c.machine).1, (act c.machine).2⟩
  have hset := sum_map_set (fun t : Task K => PacedNet.total f t.done) hi
    (t.after x (rest c.machine))
  have htask : PacedNet.total f (t.after x (rest c.machine)).done
      = PacedNet.total f t.done + f x.event := total_append f t.done x
  have hlog : (c.proceed i t act rest).total f = c.total f + f x.event := total_append f c.log x
  rw [htask] at hset
  rw [hlog, h]
  show totalOf f c.tasks + f x.event
    = ((c.tasks.set i (t.after x (rest c.machine))).map fun t => PacedNet.total f t.done).sum
  unfold totalOf
  omega

variable [Kernel K] {admits : Socket → Operation → Prop} {aside : Machine K → Machine K → Prop}

/-- All that was done was done by the operations. -/
theorem total_eq (f : Event → Nat) {m : Machine K} (h : Reaches admits aside (start m) c) :
    c.total f = totalOf f c.tasks := by
  induction h with
  | refl => rfl
  | tail _ hstep ih =>
      cases hstep with
      | setOut more _ =>
          unfold totalOf setOut
          rw [List.map_append, List.sum_append]
          exact ih
      | proceed hi hnext => exact total_proceed hi f _ _ ih
      | aside _ => exact ih

/-- **A shared quota bounds what its sockets move.** Whatever operations of theirs come between each
other, and whatever else happens: all that they have moved, acknowledgements apart, was charged to
the quota's bucket, except for the octets taken in the place of acknowledgements. What a call moves
is no more than the operation that makes it was granted just before, and a grant on a stream no more
than the burst that it had just read. -/
theorem moved_le_charged (hK : Kernel.Bounded K) {id : QuotaId} {m : Machine K} (hm : m.Has id)
    (h : Reaches (fun s op => op.quota s = some id) (fun _ m' => m'.Has id) (start m) c) :
    c.total Event.moved ≤ c.total Event.charged + c.total Event.strays
      ∧ ∀ t ∈ c.tasks, ∀ earlier x later, t.done = earlier ++ x :: later →
          Metered id (t.op.kind t.socket) earlier x := by
  have habides : Abides (Machine.Has id) (fun s op => Metered id (op.kind s)) (fun _ _ _ _ => True)
      c :=
    abides_reaches (fun s op more hquota => Operation.isMetered_script hK s op more hquota [])
      (fun _ _ _ hm' => hm') hm h
  have hmetered : ∀ t ∈ c.tasks, ∀ earlier x later, t.done = earlier ++ x :: later →
      Metered id (t.op.kind t.socket) earlier x := fun t ht => (habides.tasks t ht).obeyed
  refine ⟨?_, hmetered⟩
  rw [total_eq Event.moved h, total_eq Event.charged h, total_eq Event.strays h]
  unfold totalOf
  rw [← List.sum_map_add]
  refine List.sum_le_sum fun t ht => ?_
  have hle := total_moved_le (hmetered t ht)
  omega

/-- An end of a stream that shares a quota. -/
def pacedEnd (d : Descriptor) (acknowledge : Bool) : Socket :=
  { Socket.endOf d (some 0) with acknowledge }

/-- Octets lie before one end of a stream. A quota is there to pace it. -/
def loaded (octets : List UInt8) (bytesPerSecond : Int) : Machine Host :=
  { Machine.start (Kernel.send 0 octets 0 none Host.pair).2 with
    quotas := [.unlimited 0 (.clamp bytesPerSecond)] }

/-- Two receives that take turns. -/
def taking : Traffic Host :=
  [0, 1, 0, 1, 1, 0].foldl advance
    (((start (loaded [1, 2, 3] 8)).setOut (pacedEnd 1 false) .receiveData 0).setOut
      (pacedEnd 1 false) .receiveData 0)

theorem moved_le_charged_taking :
    (taking.total Event.moved = 2 ∧ taking.total Event.charged = 2)
      ∧ taking.total Event.moved ≤ taking.total Event.charged + taking.total Event.strays
      ∧ ∀ t ∈ taking.tasks, ∀ earlier x later, t.done = earlier ++ x :: later →
          Metered 0 (t.op.kind t.socket) earlier x :=
  ⟨by decide +kernel, moved_le_charged Host.bounded (m := loaded [1, 2, 3] 8) Nat.one_pos
    (.advance (.setOut (.setOut .refl 0 rfl) 0 rfl) _)⟩

/-- A send of nothing that waits for its acknowledgement. -/
def dataForReply : Traffic Host :=
  [0].foldl advance
    ((start (loaded [0x79] 0)).setOut (pacedEnd 1 true) (.send (.single []) ⟨0, none⟩) 0)

/-- **An octet that stands for an acknowledgement is not paced.** The quota lets nothing pass, and
yet the send takes an octet of data. -/
theorem stray_moved :
    Reaches (fun s op => op.quota s = some 0) (fun _ m' => m'.Has 0) (start (loaded [0x79] 0))
        dataForReply
      ∧ (loaded [0x79] 0).kernel.inboxOf 1 = [[0x79]] ∧ dataForReply.machine.kernel.inboxOf 1 = []
      ∧ ¬ dataForReply.total Event.moved ≤ dataForReply.total Event.charged :=
  ⟨.advance (.setOut .refl 0 rfl) _, by decide +kernel, by decide +kernel, by decide +kernel⟩

end Traffic

end PacedNet
