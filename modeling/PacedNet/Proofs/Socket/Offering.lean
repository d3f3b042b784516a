import PacedNet.Proofs.Granting
import PacedNet.Proofs.Socket.Metering

/-!
# Grants that let a transfer go on

A transfer asks its quota for what is left to send. If that is something, a grant is something, and
so is the chunk that is offered to the kernel: the transfer cannot go round and round without an
octet (`Operation.offers_script`). This holds of every transfer wherever others are with theirs, and
whatever becomes of the quotas meanwhile, as long as their rates are numbers of the format. Only a
datagram without octets asks for nothing, and then it is sent as it is.
-/

namespace PacedNet

variable {K : Type}

/-- Nothing is granted, or nothing is offered to the kernel. -/
def Event.IsEmpty : Event → Prop
  | granted n => n = 0
  | sent _ octets _ => octets = []
  | _ => False

namespace Script

variable {α β : Type} {hollow : Prop} {seen : List (Moment K)}

/-- Nothing is granted or offered that is empty, unless that is as it should be. -/
def Offers (hollow : Prop) (s : Script K α) : Prop :=
  ∀ seen, s.Keeps Machine.Proper (fun _ x => x.event.IsEmpty → hollow) (fun _ _ => True) seen

theorem offers_ended (answer : Except Failure α) : (ended answer : Script K α).Offers hollow :=
  fun _ => trivial

theorem Offers.bind {s : Script K α} {f : α → Script K β} (hs : s.Offers hollow)
    (hf : ∀ a, (f a).Offers hollow) : (s >>= f).Offers hollow := fun seen =>
  keeps_seq (hs seen) hf

/-- A step of an operation that only moves, and neither draws on a quota nor sends. -/
theorem offers_step {event : Machine K → Except Failure α → Event} {act : Act K α}
    (hevent : ∀ m r, ¬ (event m r).IsEmpty) (hact : ∀ m r m', act.run m = (r, m') → m.Moves m') :
    (step event act).Offers hollow := fun _ =>
  keeps_step fun m r m' hm h =>
    ⟨(hact m r m' h).proper hm, fun hempty => absurd hempty (hevent m r), trivial⟩

/-- What is asked for as one is granted as one. -/
theorem keeps_paceWhole_offers {stage : Stage} {quota : Option QuotaId} {bytes : Nat}
    (hbytes : bytes = 0 → hollow) :
    (paceWhole stage quota bytes : Script K Nat).Keeps Machine.Proper
      (fun _ x => x.event.IsEmpty → hollow) (fun _ answer => ∀ n, answer = .ok n → n = bytes)
      seen := by
  refine keeps_step fun m r m' hm h => ?_
  obtain ⟨hmoves, -⟩ := Act.moves_pace (fun q now n => (q.reserve_spec now n).1) h
  have hr : ∀ n, r = .ok n → n = bytes := by
    intro n hn
    rcases Act.run_pace_cases h with ⟨-, hok, -⟩ | ⟨id, q, -, -, -, hgrant⟩
    · exact Except.ok.inj (hn.symm.trans hok)
    · rcases hgrant with ⟨-, hno⟩ | ⟨-, hno⟩ | ⟨k, wait, hgranted, hok⟩
      · exact absurd (hn.symm.trans hno) (by simp)
      · exact absurd (hn.symm.trans hno) (by simp)
      · obtain rfl : n = k := Except.ok.inj (hn.symm.trans hok)
        exact (q.reserve_spec m.now bytes).2 n wait hgranted
  refine ⟨hmoves.proper hm, fun hempty => ?_, hr⟩
  cases hquota : quotaOf quota m with
  | none =>
      rw [hquota] at hempty
      exact absurd hempty id
  | some q =>
      rw [hquota] at hempty
      cases r with
      | error e => exact absurd hempty id
      | ok n => exact hbytes ((hr n rfl).symm.trans hempty)

/-- Of something that is asked for something is granted. -/
theorem keeps_pace_offers {stage : Stage} {quota : Option QuotaId} {bytes : Nat}
    (hbytes : 0 < bytes) :
    (pace stage quota bytes : Script K Nat).Keeps Machine.Proper
      (fun _ x => x.event.IsEmpty → hollow) (fun _ answer => ∀ n, answer = .ok n → 0 < n)
      seen := by
  refine keeps_bind fun m hm => ⟨hm, ?_, ?_⟩
  · show ((quotaOf quota m).elim Event.quiet fun q => .sized q.burst).IsEmpty → hollow
    cases quotaOf quota m <;> exact False.elim
  · have hsize : 0 < (quotaOf quota m).elim bytes fun q => min bytes q.burst := by
      cases hquota : quotaOf quota m with
      | none => exact hbytes
      | some q =>
          obtain ⟨id, -, hq⟩ := Option.bind_eq_some_iff.mp hquota
          have hburst := Quota.one_le_burst (hm q (List.mem_of_getElem? hq))
          show 0 < min bytes q.burst
          omega
    refine (keeps_paceWhole_offers fun hzero => absurd hzero hsize.ne').mono
      fun _ answer hanswer n hn => ?_
    rw [hanswer n hn]
    exact hsize

theorem offers_checkpoint (link : Link) : (checkpoint link : Script K Unit).Offers hollow :=
  offers_step (fun _ _ hempty => hempty) fun _ _ _ h => Transfer.run_checkpoint h ▸ .refl _

variable [Kernel K]

theorem offers_awaitReply (link : Link) : (awaitReply link : Script K Unit).Offers hollow :=
  offers_step (fun _ _ hempty => hempty) fun _ _ _ h => (Transfer.call_of_awaitReply h).1

theorem offers_send {link : Link} {octets : List UInt8} {flags : Nat} {pass : Option OpenFile}
    (hoctets : octets = [] → hollow) :
    (send link octets flags pass : Script K Nat).Offers hollow := fun _ =>
  keeps_step fun _ _ _ hm h => ⟨(Act.run_call h).1.proper hm, hoctets, trivial⟩

/-- A round of a stream with something left to send. -/
theorem offers_round (link : Link) (flags : Nat) (pass : Option OpenFile) {rest : List UInt8}
    (hrest : rest ≠ []) : (round link flags pass rest : Script K Nat).Offers hollow := by
  refine (offers_checkpoint link).bind fun _ seen => ?_
  refine (keeps_pace_offers (List.length_pos_of_ne_nil hrest)).andThen (fun seen n hn => ?_)
    fun _ _ => trivial
  refine offers_send (fun hempty => ?_) seen
  rcases List.take_eq_nil_iff.mp hempty with hzero | hnil
  · exact absurd hzero hn.ne'
  · exact absurd hnil hrest

theorem offers_datagram (link : Link) {parcel : Parcel} (hwire : parcel.wire = [] → hollow) :
    (datagram link parcel : Script K SendReport).Offers hollow := by
  refine (offers_checkpoint link).bind fun _ seen => ?_
  refine (keeps_paceWhole_offers fun hzero => hwire (List.length_eq_zero_iff.mp hzero)).andThen
    (fun seen _ _ => ?_) fun _ _ => trivial
  exact (offers_send hwire).bind (fun _ => offers_ended _) seen

theorem offers_transfer (link : Link) (parcel : Parcel) (acknowledge : Bool)
    (hhollow : link.kind = .datagram → parcel.wire = [] → hollow) :
    (transfer link parcel acknowledge : Script K SendReport).Offers hollow :=
  keeps_transfer (fun _ pass _ hrest => offers_round link _ pass hrest)
    (fun hkind => offers_datagram link (hhollow hkind)) (offers_awaitReply link) acknowledge

end Script

namespace Operation

/-- What a transfer puts on the wire. No other operation has such a thing. -/
def parcel? : Operation → Option Parcel
  | send p options => some (p.parcel options)
  | carry job => some job.parcel
  | _ => none

/-- A transfer of a datagram without octets. -/
def IsHollow (s : Socket) (op : Operation) : Prop :=
  op.kind s = .datagram ∧ ∃ parcel, op.parcel? = some parcel ∧ parcel.wire = []

/-- **No transfer is granted nothing of something**, nor offers it. -/
theorem offers_script [Kernel K] (s : Socket) {op : Operation} (more : Nat)
    (hop : op.parcel?.isSome = true) :
    (op.script s more : Script K Outcome).Offers (op.IsHollow s) := by
  cases op with
  | send p options =>
      unfold script
      cases hlink : s.writer with
      | error e => exact Script.offers_ended _
      | ok link =>
          obtain ⟨-, -, hmade⟩ := Socket.of_link hlink
          refine (Script.offers_transfer link _ _ fun hkind hwire => ?_).bind fun _ =>
            Script.offers_ended _
          rw [hmade] at hkind
          exact ⟨hkind, _, rfl, hwire⟩
  | carry job =>
      exact (Script.offers_transfer job.link job.parcel false fun hkind hwire =>
        ⟨hkind, _, rfl, hwire⟩).bind fun _ => Script.offers_ended _
  | receiveData => exact absurd hop (by simp [parcel?])
  | receiveRecords => exact absurd hop (by simp [parcel?])
  | receivePassed => exact absurd hop (by simp [parcel?])
  | receiveToEnd => exact absurd hop (by simp [parcel?])

end Operation

namespace Traffic

variable [Kernel K] {c : Traffic K} {m : Machine K}

/-- **What quotas grant to transfers.** A quota that is in service refuses exactly if its capacity
or its fraction is nothing; else it grants what is asked for, up to a burst where that is to be
split, unless the wait is no duration. Its bucket may hold whatever it will. And where transfers
draw on quotas, none of them is granted nothing, or offers nothing to the kernel, but a datagram
without octets. -/
theorem granted_something {q : Quota} (hq : q.InService) (bucket : Bucket) (hm : m.Proper)
    (h : Reaches (fun _ op => op.parcel?.isSome = true) (fun _ m' => m'.Proper) (start m) c) :
    Quota.Grants { q with bucket }
      ∧ ∀ t ∈ c.tasks, ∀ x ∈ t.done, x.event.IsEmpty → t.op.IsHollow t.socket := by
  have hheld : Quota.CanHold ({ q with bucket } : Quota).fraction := hq.canHold
  have habides : Abides Machine.Proper (fun s op _ x => x.event.IsEmpty → op.IsHollow s)
      (fun _ _ _ _ => True) c :=
    abides_reaches (fun s _ more hop => Operation.offers_script s more hop [])
      (fun _ _ _ hm' => hm') hm h
  refine ⟨hheld.grants, fun t ht x hx => ?_⟩
  obtain ⟨earlier, later, hdone⟩ := List.append_of_mem hx
  exact (habides.tasks t ht).obeyed earlier x later hdone

/-- A quota of eight bytes a second that owes a hundred. -/
def indebted : Quota := { Quota.unlimited 0 (.clamp 8) with bucket := ⟨.finite true 100, 0⟩ }

/-- Two ends of a stream that may draw on it. -/
def sharingIndebted : Machine Host := { Machine.start Host.pair with quotas := [indebted] }

/-- Two rounds of a send. -/
def twoRounds : Traffic Host :=
  [0, 0, 0, 0, 0, 0, 0, 0].foldl advance
    ((start sharingIndebted).setOut (pacedEnd 0 false) (.send (.single [1, 2, 3]) ⟨0, none⟩) 0)

theorem granted_something_twoRounds :
    twoRounds.total Event.moved = 2
      ∧ (∃ wait, (indebted.throttle 0 5).1 = .granted 1 wait)
      ∧ ∀ t ∈ twoRounds.tasks, ∀ x ∈ t.done, x.event.IsEmpty → t.op.IsHollow t.socket := by
  have hproper : sharingIndebted.Proper := by
    refine Machine.proper_of_fractions fun q hq => ?_
    rw [List.mem_singleton.mp hq]
    exact zero_le_one
  have hreach : Reaches (fun _ op => op.parcel?.isSome = true) (fun _ m' => m'.Proper)
      (start sharingIndebted) twoRounds := .advance (.setOut .refl 0 rfl) _
  obtain ⟨hgrants, hempty⟩ :=
    granted_something (.unlimited 0 (.clamp 8)) indebted.bucket hproper hreach
  obtain ⟨wait, hwait⟩ : ∃ wait, (indebted.throttle 0 5).1 = .granted (min 5 indebted.burst) wait :=
    (hgrants.throttle 0 5).granted (by decide +kernel) (by decide +kernel)
  have hburst : min 5 indebted.burst = 1 := by decide +kernel
  exact ⟨by decide +kernel, ⟨wait, hburst ▸ hwait⟩, hempty⟩

end Traffic

end PacedNet
