import PacedNet.Proofs.Host.Duplex
import PacedNet.Proofs.Socket.Inbox

/-!
# The inbox of a host's socket

What lies before a socket of the host is its inbox, one entry a segment or a message. Only a
receive of that socket takes from it, and a refused send of a datagram socket empties it
(`inbox`).
-/

namespace PacedNet.Host

variable {h h' : Host} {d : Descriptor} {s t : Station} {f : Station → Station} {kind : Kind}

/-- The octets that lie in an inbox, entry by entry. -/
def inboxOf (d : Descriptor) (h : Host) : List (List UInt8) :=
  ((h.station? d).map fun s => s.inbox.map Segment.octets).getD []

/-- A socket of that kind is open. -/
def Bears (kind : Kind) (d : Descriptor) (h : Host) : Prop :=
  ∃ s, h.station? d = some s ∧ s.kind = kind

theorem inboxOf_eq (hs : h.station? d = some s) : h.inboxOf d = s.inbox.map Segment.octets := by
  unfold inboxOf
  rw [hs]
  rfl

/-- A change of a socket that leaves it open changes its inbox as it says. -/
theorem inboxOf_update (hs : h.station? d = some s) (hopen : (f s).isOpen = s.isOpen)
    (hkind : (f s).kind = s.kind) : Bears s.kind d (h.update d f)
      ∧ (h.update d f).inboxOf d = (f s).inbox.map Segment.octets := by
  have hfs : (h.update d f).station? d = some (f s) :=
    station?_update_self hs (hopen.trans (station?_eq_some.mp hs).2)
  exact ⟨⟨f s, hfs, hkind⟩, inboxOf_eq hfs⟩

/-- What a receive of a stream takes finds room. -/
theorem length_takeOctets (room : Nat) (queue : List Segment) :
    (takeOctets room queue).1.octets.length ≤ room := by
  induction queue generalizing room with
  | nil => cases room <;> exact Nat.zero_le _
  | cons segment rest ih =>
      cases room with
      | zero => exact Nat.zero_le _
      | succ room =>
          rw [takeOctets]
          have hfits : segment.octets.drop (room + 1) = [] →
              segment.octets.length ≤ room + 1 := List.drop_eq_nil_iff.mp
          split
          · exact List.length_take_le _ _
          · rename_i hdrop _
            exact hfits hdrop
          · rename_i hdrop _
            have hrest := ih (room + 1 - segment.octets.length)
            have hfirst := hfits hdrop
            show (segment.octets ++ _).length ≤ room + 1
            rw [List.length_append]
            omega

/-- A pending error that is used up is no matter of the inbox. -/
theorem Bears.forgive (hb : Bears kind d h)
    (hh : h' = h ∨ h' = h.update d fun s => { s with pending := none }) :
    Bears kind d h' ∧ h'.inboxOf d = h.inboxOf d := by
  rcases hh with rfl | rfl
  · exact ⟨hb, rfl⟩
  · obtain ⟨s, hs, rfl⟩ := hb
    obtain ⟨hb', hafter⟩ := inboxOf_update (f := fun s => { s with pending := none }) hs rfl rfl
    exact ⟨hb', hafter.trans (inboxOf_eq hs).symm⟩

theorem leaves_of_eq (hsame : h'.inboxOf d = h.inboxOf d) :
    kind.Leaves (h.inboxOf d) [] (h'.inboxOf d) := hsame ▸ Kind.leaves_refl _

theorem Bears.send (hb : Bears kind d h) {octets : List UInt8} {flags : Nat}
    {pass : Option OpenFile} {answer : Except Errno Nat}
    (hr : (Host.send d octets flags pass).run h = (answer, h')) :
    Bears kind d h' ∧ ∃ lost, kind.Leaves (h.inboxOf d) lost (h'.inboxOf d)
      ∧ (lost = [] ∨ kind = .datagram ∧ answer = .error .connectionRefused) := by
  obtain ⟨s, hs, rfl⟩ := hb
  rcases send_outcomes hr with
    ⟨-, rfl⟩ | ⟨⟨s', hs', hkind⟩, hrefused, rfl⟩ | ⟨-, -, peer, -, -, rfl⟩
  · exact ⟨⟨s, hs, rfl⟩, [], Kind.leaves_refl _, .inl rfl⟩
  · obtain rfl : s = s' := Option.some.inj (hs.symm.trans hs')
    obtain ⟨hb', hafter⟩ :=
      inboxOf_update (f := fun s => { s with role := .idle, inbox := [] }) hs rfl rfl
    refine ⟨hb', h.inboxOf d, ?_, .inr ⟨hkind, hrefused⟩⟩
    have hempty : (forget d h).inboxOf d = [] := hafter
    rw [hempty]
    refine ⟨[], ?_⟩
    rw [hkind]
    rfl
  · by_cases hpeer : peer = d
    · -- a socket may be its own peer
      subst hpeer
      obtain ⟨hb', hafter⟩ := inboxOf_update
        (f := fun s => { s with inbox := s.inbox ++ [⟨octets, pass⟩] }) hs rfl rfl
      refine ⟨hb', [], ?_, .inl rfl⟩
      have happended : (deliver peer ⟨octets, pass⟩ h).inboxOf peer
          = h.inboxOf peer ++ [octets] := by
        rw [inboxOf_eq hs]
        refine hafter.trans ?_
        rw [List.map_append]
        rfl
      rw [happended]
      exact Kind.leaves_arrived _ _
    · have hother : (deliver peer ⟨octets, pass⟩ h).station? d = h.station? d :=
        station?_update_ne hpeer
      refine ⟨⟨s, hother.trans hs, rfl⟩, [], leaves_of_eq ?_, .inl rfl⟩
      unfold inboxOf
      rw [hother]

/-- A receive from a datagram socket takes the message in front, unless an error is pending or
nothing is there. -/
theorem receive_datagram (hs : h.station? d = some s) (hkind : s.kind = .datagram) {room : Nat}
    {r : Except Errno Incoming} (hr : (receive d room).run h = (r, h')) :
    (∃ e, r = .error e ∧ (report d).run h = (.error e, h'))
      ∨ s.inbox = [] ∧ (nothing d).run h = (r, h')
      ∨ ∃ message rest, s.inbox = message :: rest ∧ r = .ok (takeMessage room message)
          ∧ h' = h.update d fun t => { t with inbox := rest } := by
  unfold receive at hr
  rcases run_bind hr with ⟨s', h₁, hs', hrest⟩ | ⟨e, hs', -⟩
  · obtain ⟨rfl, heq⟩ := run_station hs'
    obtain rfl : s = s' := Option.some.inj (hs.symm.trans (heq _ rfl))
    rw [hkind] at hrest
    rcases run_bind hrest with ⟨⟨⟩, h₂, hreport, hqueued⟩ | ⟨e, hreport, rfl⟩
    · obtain rfl := run_report_ok hreport
      cases hqueue : s.inbox with
      | nil =>
          rw [hqueue] at hqueued
          exact .inr (.inl ⟨rfl, hqueued⟩)
      | cons message rest =>
          rw [hqueue] at hqueued
          injection hqueued with hr hh
          exact .inr (.inr ⟨message, rest, rfl, hr.symm, hh.symm⟩)
    · exact .inl ⟨e, rfl, hreport⟩
  · exact absurd (hs.symm.trans (run_station_error hs')) (by simp)

/-- A receive takes from the front of the inbox what it answers, or fails and takes nothing. -/
theorem Bears.receive (hb : Bears kind d h) {room : Nat} {answer : Except Errno Incoming}
    (hr : (Host.receive d room).run h = (answer, h')) :
    Bears kind d h'
      ∧ match answer with
        | .error _ => kind.Leaves (h.inboxOf d) [] (h'.inboxOf d)
        | .ok got => ∃ taken, got.Takes kind room taken
            ∧ kind.Leaves (h.inboxOf d) taken (h'.inboxOf d) := by
  obtain ⟨s, hs, rfl⟩ := id hb
  cases hkind : s.kind with
  | stream =>
      rw [hkind] at hb
      rcases receive_stream hs hkind hr with ⟨-, hnothing⟩ | ⟨-, rfl, rfl⟩
      · obtain ⟨hb', hsame⟩ := hb.forgive (nothing_cases hnothing)
        refine ⟨hb', ?_⟩
        cases answer with
        | error e => exact leaves_of_eq hsame
        | ok got =>
            obtain ⟨hgot, -⟩ := run_nothing hnothing
            refine ⟨[[]], ⟨by rw [hgot], by rw [hgot]; exact Nat.zero_le _⟩, ?_⟩
            exact Kind.leaves_stream_nil.mpr (leaves_of_eq hsame)
      · obtain ⟨hb', hafter⟩ := inboxOf_update
          (f := fun t => { t with inbox := (takeOctets room s.inbox).2 }) hs rfl rfl
        rw [hkind] at hb'
        refine ⟨hb', [_], ⟨rfl, length_takeOctets room s.inbox⟩, [], ?_⟩
        show (h.inboxOf d ++ []).flatten = ([_] ++ _).flatten
        rw [hafter, inboxOf_eq hs, List.append_nil, ← List.flatMap_def, List.flatten_append,
          List.flatten_singleton, ← List.flatMap_def]
        exact takeOctets_spec room s.inbox
  | datagram =>
      rw [hkind] at hb
      rcases receive_datagram hs hkind hr with
        ⟨e, rfl, hreport⟩ | ⟨-, hnothing⟩ | ⟨message, rest, hqueue, rfl, rfl⟩
      · obtain ⟨hb', hsame⟩ := hb.forgive (report_cases hreport)
        exact ⟨hb', leaves_of_eq hsame⟩
      · obtain ⟨hb', hsame⟩ := hb.forgive (nothing_cases hnothing)
        refine ⟨hb', ?_⟩
        cases answer with
        | error e => exact leaves_of_eq hsame
        | ok got =>
            obtain ⟨rfl, -⟩ := run_nothing hnothing
            exact ⟨[], .inl ⟨rfl, rfl⟩, leaves_of_eq hsame⟩
      · obtain ⟨hb', hafter⟩ := inboxOf_update (f := fun t => { t with inbox := rest }) hs rfl rfl
        rw [hkind] at hb'
        refine ⟨hb', [message.octets], .inr ⟨_, rfl, rfl, rfl⟩, [], ?_⟩
        show h.inboxOf d ++ [] = [message.octets] ++ _
        rw [hafter, inboxOf_eq hs, hqueue, List.append_nil]
        rfl

theorem Bears.ready (hb : Bears kind d h) {answer : Bool} (hr : Host.ready d h = (answer, h')) :
    Bears kind d h' ∧ kind.Leaves (h.inboxOf d) [] (h'.inboxOf d) := by
  have hh : h' = h ∨ h' = h.update d fun s => { s with pending := none } := by
    unfold Host.ready at hr
    split at hr <;> injection hr with _ hh
    · exact .inl hh.symm
    · exact .inr hh.symm
  obtain ⟨hb', hsame⟩ := hb.forgive hh
  exact ⟨hb', leaves_of_eq hsame⟩

/-- Looking at the message in front uses up a pending error at most. -/
theorem nextLength_cases {answer : Except Errno Nat}
    (hr : (Host.nextLength d).run h = (answer, h')) :
    h' = h ∨ h' = h.update d fun s => { s with pending := none } := by
  unfold Host.nextLength at hr
  rcases run_bind hr with ⟨⟨⟩, h₁, hreport, h₂⟩ | ⟨e, hreport, -⟩
  · obtain rfl := run_report_ok hreport
    rcases run_bind h₂ with ⟨s, h₃, hs, h₄⟩ | ⟨e, hs, -⟩
    · obtain ⟨rfl, -⟩ := run_station hs
      split at h₄
      · injection h₄ with _ hh
        exact .inl hh.symm
      · rcases run_bind h₄ with ⟨got, h₅, hnothing, hreturn⟩ | ⟨e, hnothing, -⟩
        · injection hreturn with _ hh
          exact hh ▸ nothing_cases hnothing
        · exact nothing_cases hnothing
    · exact .inl (run_station hs).1
  · exact report_cases hreport

theorem Bears.nextLength (hb : Bears kind d h) {answer : Except Errno Nat}
    (hr : (Host.nextLength d).run h = (answer, h')) :
    Bears kind d h' ∧ kind.Leaves (h.inboxOf d) [] (h'.inboxOf d) := by
  obtain ⟨hb', hsame⟩ := hb.forgive (nextLength_cases hr)
  exact ⟨hb', leaves_of_eq hsame⟩

/-- **Only a receive takes from the inbox of a host's socket.** -/
theorem inbox (kind : Kind) (d : Descriptor) :
    Kernel.Inbox kind d (Bears kind d) (inboxOf d) where
  send hb hsend := hb.send hsend
  receive hb hreceive := hb.receive hreceive
  refuse hb hreceive := hb.receive hreceive
  ready hb hready := hb.ready hready
  nextLength hb hnext := hb.nextLength hnext

end PacedNet.Host
