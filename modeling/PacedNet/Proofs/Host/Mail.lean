import PacedNet.Proofs.Host.Inbox
import PacedNet.Proofs.Socket.Mail

/-!
# Messages between sockets of a host

What lies before a datagram socket of the host is its inbox, one entry a message. A socket that is
connected to another, while both are open for reading, puts its messages there whole, and only a
receive takes them out, one at a time (`mail`).
-/

namespace PacedNet.Host

variable {h h' : Host} {a b d peer : Descriptor} {s t : Station} {f : Station → Station}

/-- A datagram socket that is connected to a peer and may receive. -/
structure IsMailbox (peer : Descriptor) (s : Station) : Prop where
  kind : s.kind = .datagram
  role : s.role = .connected peer
  listens : s.readShut = false

/-- Two datagram sockets that are each other's peers. -/
structure Paired (a b : Descriptor) (h : Host) : Prop where
  apart : a ≠ b
  near : ∃ s, h.station? a = some s ∧ IsMailbox b s
  far : ∃ t, h.station? b = some t ∧ IsMailbox a t

theorem Paired.symm (hp : Paired a b h) : Paired b a h := ⟨hp.apart.symm, hp.far, hp.near⟩

/-- A change of one socket that keeps it the other's peer leaves the other's inbox. -/
theorem Paired.update (hp : Paired a b h) (ht : h.station? b = some t) (hbox : IsMailbox a (f t))
    (hopen : (f t).isOpen = t.isOpen) :
    Paired a b (h.update b f) ∧ (h.update b f).inboxOf a = h.inboxOf a
      ∧ (h.update b f).inboxOf b = (f t).inbox.map Segment.octets := by
  have hft : (h.update b f).station? b = some (f t) :=
    station?_update_self ht (hopen.trans (station?_eq_some.mp ht).2)
  have hother : (h.update b f).station? a = h.station? a := station?_update_ne hp.apart.symm
  refine ⟨⟨hp.apart, ?_, f t, hft, hbox⟩, ?_, inboxOf_eq hft⟩
  · rw [hother]
    exact hp.near
  · unfold inboxOf
    rw [hother]

/-- A pending error that is used up is no matter of the messages. -/
theorem Paired.forgive (hp : Paired a b h)
    (hh : h' = h ∨ h' = h.update b fun s => { s with pending := none }) :
    Paired a b h' ∧ h'.inboxOf a = h.inboxOf a ∧ h'.inboxOf b = h.inboxOf b := by
  rcases hh with rfl | rfl
  · exact ⟨hp, rfl, rfl⟩
  · obtain ⟨t, ht, hbox⟩ := hp.far
    obtain ⟨hp', hnear, hfar⟩ := hp.update (f := fun s => { s with pending := none }) ht
      ⟨hbox.kind, hbox.role, hbox.listens⟩ rfl
    exact ⟨hp', hnear, hfar.trans (inboxOf_eq ht).symm⟩

/-- A call that sends to an open peer fails without a trace or delivers all. -/
theorem send_open {octets : List UInt8} {flags : Nat} {pass : Option OpenFile}
    {r : Except Errno Nat} (hs : h.station? d = some s) (hrole : s.role = .connected peer)
    (ht : h.station? peer = some t) (hr : (Host.send d octets flags pass).run h = (r, h')) :
    (∃ e, r = .error e) ∧ h' = h
      ∨ r = .ok octets.length ∧ h' = deliver peer ⟨octets, pass⟩ h := by
  have hstation : (station d).run h = (.ok s, h) := by
    unfold station
    rw [run_get_bind, hs]
    rfl
  have unchanged {e : Errno} (hfail : (Except.error e, h) = (r, h')) :
      (∃ e, r = .error e) ∧ h' = h := by
    injection hfail with hr hh
    exact ⟨⟨e, hr.symm⟩, hh.symm⟩
  unfold Host.send at hr
  rw [run_bind_of_ok hstation, hrole] at hr
  dsimp only at hr
  split at hr
  · exact .inl (unchanged hr)
  · split at hr
    · exact .inl (unchanged hr)
    · rw [run_get_bind, ht] at hr
      split at hr
      · exact .inl (unchanged hr)
      · rename_i hno
        exact absurd hno (by simp)
      · split at hr
        · exact .inl (unchanged hr)
        · split at hr
          · exact .inl (unchanged hr)
          · rw [run_modify_bind] at hr
            injection hr with hr hh
            exact .inr ⟨hr.symm, hh.symm⟩

theorem Paired.send (hp : Paired a b h) {octets : List UInt8} {flags : Nat}
    {pass : Option OpenFile} {answer : Except Errno Nat} :
    (Host.send a octets flags pass).run h = (answer, h') →
    Paired a b h' ∧ h'.inboxOf a = h.inboxOf a ∧ match answer with
      | .error _ => h'.inboxOf b = h.inboxOf b
      | .ok n => n = octets.length ∧ h'.inboxOf b = h.inboxOf b ++ [octets] := by
  intro hr
  obtain ⟨s, hs, hnear⟩ := hp.near
  obtain ⟨t, ht, hfar⟩ := hp.far
  rcases send_open hs hnear.role ht hr with ⟨⟨e, rfl⟩, rfl⟩ | ⟨rfl, rfl⟩
  · exact ⟨hp, rfl, rfl⟩
  · obtain ⟨hp', hback, hafter⟩ := hp.update
      (f := fun s => { s with inbox := s.inbox ++ [⟨octets, pass⟩] }) ht
      ⟨hfar.kind, hfar.role, hfar.listens⟩ rfl
    refine ⟨hp', hback, rfl, hafter.trans ?_⟩
    rw [inboxOf_eq ht, List.map_append]
    rfl

/-- Where nothing is, a socket that is open for reading finds nothing. -/
theorem nothing_open (hs : h.station? d = some s) (hopen : s.readShut = false) {got : Incoming}
    (hr : (nothing d).run h = (.ok got, h')) : False := by
  unfold nothing at hr
  obtain ⟨⟨⟩, h₁, hreport, hrest⟩ := run_bind_ok hr
  obtain rfl := run_report_ok hreport
  obtain ⟨s', h₂, hs', hlast⟩ := run_bind_ok hrest
  obtain ⟨rfl, heq⟩ := run_station hs'
  obtain rfl : s = s' := Option.some.inj (hs.symm.trans (heq _ rfl))
  rw [hopen] at hlast
  injection hlast with hno _
  exact absurd hno (by simp)

theorem Paired.receive (hp : Paired a b h) {room : Nat} {answer : Except Errno Incoming} :
    (Host.receive b room).run h = (answer, h') →
    Paired a b h' ∧ h'.inboxOf a = h.inboxOf a ∧ match answer with
      | .error _ => h'.inboxOf b = h.inboxOf b
      | .ok got => ∃ message, h.inboxOf b = message :: h'.inboxOf b
          ∧ got.octets = message.take room ∧ got.length = message.length := by
  intro hr
  obtain ⟨t, ht, hbox⟩ := hp.far
  rcases receive_datagram ht hbox.kind hr with
    ⟨e, rfl, hreport⟩ | ⟨-, hnothing⟩ | ⟨message, rest, hqueue, rfl, rfl⟩
  · exact hp.forgive (report_cases hreport)
  · cases answer with
    | error e => exact hp.forgive (nothing_cases hnothing)
    | ok got => exact (nothing_open ht hbox.listens hnothing).elim
  · obtain ⟨hp', hback, hafter⟩ := hp.update (f := fun t => { t with inbox := rest }) ht
      ⟨hbox.kind, hbox.role, hbox.listens⟩ rfl
    refine ⟨hp', hback, message.octets, ?_, rfl, rfl⟩
    rw [hafter, inboxOf_eq ht, hqueue]
    rfl

theorem Paired.nextLength (hp : Paired a b h) {answer : Except Errno Nat}
    (hr : (Host.nextLength b).run h = (answer, h')) :
    Paired a b h' ∧ h'.inboxOf a = h.inboxOf a ∧ h'.inboxOf b = h.inboxOf b :=
  hp.forgive (nextLength_cases hr)

theorem post (a b : Descriptor) : Kernel.Post a b (Paired a b) (inboxOf b) (inboxOf a) where
  send hp hsend := hp.send hsend
  receive hp hreceive := hp.receive hreceive
  nextLength hp hlook := hp.nextLength hlook

/-- **Two sockets of the host keep a queue of messages in each direction.** -/
theorem mail (hne : a ≠ b) : Kernel.Mail a b (Paired a b) (inboxOf b) (inboxOf a) where
  apart := hne
  there := post a b
  back := by
    have hsame : Paired b a = Paired a b := funext fun h => propext ⟨.symm, .symm⟩
    rw [← hsame]
    exact post b a

/-- Two datagram sockets that are each other's peers. -/
def mailboxes : Host where
  stations := [{ fresh .unix .datagram with role := .connected 1 },
    { fresh .unix .datagram with role := .connected 0 }]
  nodes := []
  contents := []
  nextPort := firstPort
  appendOnly := false

theorem paired_mailboxes : Paired 0 1 mailboxes :=
  ⟨by decide, ⟨_, rfl, rfl, rfl, rfl⟩, _, rfl, rfl, rfl, rfl⟩

end PacedNet.Host
