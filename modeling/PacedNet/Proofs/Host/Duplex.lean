import PacedNet.Proofs.Host.Streaming
import PacedNet.Proofs.Socket.Channel

/-!
# Both directions of a host's stream

Each end of a stream has its inbox, where lies what the other end has sent. A call of one end
touches one inbox: its own if it receives or looks, the other's if it sends. So a stream of the
host is a connection with two directions (`duplex`).
-/

namespace PacedNet.Host

variable {h h' : Host} {a b d : Descriptor} {s t : Station} {f : Station → Station}

/-- An end of a stream: its other end is `b`, and no segment in its inbox is empty. -/
structure IsEnd (b : Descriptor) (s : Station) : Prop where
  kind : s.kind = .stream
  role : s.role = .connected b
  inbox : ∀ g ∈ s.inbox, g.octets ≠ []

/-- Two streams that are each other's ends. -/
structure Linked (a b : Descriptor) (h : Host) : Prop where
  apart : a ≠ b
  near : ∃ s, h.station? a = some s ∧ IsEnd b s
  far : ∃ t, h.station? b = some t ∧ IsEnd a t

theorem Linked.symm (hl : Linked a b h) : Linked b a h := ⟨hl.apart.symm, hl.far, hl.near⟩

/-- A change at one end that keeps it an end leaves the other's inbox. -/
theorem Linked.update (hl : Linked a b h) (ht : h.station? b = some t) (hend : IsEnd a (f t))
    (hopen : (f t).isOpen = t.isOpen) :
    Linked a b (h.update b f) ∧ (h.update b f).inboxOctets a = h.inboxOctets a
      ∧ (h.update b f).inboxOctets b = octetsOf (f t).inbox := by
  have hft : (h.update b f).station? b = some (f t) :=
    station?_update_self ht (hopen.trans (station?_eq_some.mp ht).2)
  have hother : (h.update b f).station? a = h.station? a := station?_update_ne hl.apart.symm
  refine ⟨⟨hl.apart, ?_, f t, hft, hend⟩, ?_, inboxOctets_eq hft⟩
  · rw [hother]
    exact hl.near
  · unfold inboxOctets
    rw [hother]

/-- Octets that are taken leave no empty segment behind. -/
theorem takeOctets_solid (room : Nat) {queue : List Segment} (hq : ∀ g ∈ queue, g.octets ≠ []) :
    (∀ g ∈ (takeOctets room queue).2, g.octets ≠ [])
      ∧ (0 < room → queue ≠ [] → (takeOctets room queue).1.octets ≠ []) := by
  induction queue generalizing room with
  | nil => cases room <;> exact ⟨by simp [takeOctets], fun _ hne => absurd rfl hne⟩
  | cons segment rest ih =>
      have hrest : ∀ g ∈ rest, g.octets ≠ [] := fun g hg => hq g (List.mem_cons_of_mem _ hg)
      have hfirst := hq segment List.mem_cons_self
      cases room with
      | zero => exact ⟨hq, fun hno => absurd hno (Nat.lt_irrefl 0)⟩
      | succ room =>
          rw [takeOctets]
          split
          · refine ⟨fun g hg => ?_, fun _ _ => ?_⟩
            · rcases List.mem_cons.mp hg with rfl | hg
              · simp
              · exact hrest g hg
            · show segment.octets.take (room + 1) ≠ []
              rw [Ne, List.take_eq_nil_iff, not_or]
              exact ⟨by omega, hfirst⟩
          · exact ⟨hrest, fun _ _ => hfirst⟩
          · refine ⟨(ih _ hrest).1, fun _ _ => ?_⟩
            exact fun hnil => hfirst (List.append_eq_nil_iff.mp hnil).1

/-- What a receive finds in an empty inbox uses up a pending error at most. -/
theorem nothing_cases {r : Except Errno Incoming} (hr : (nothing d).run h = (r, h')) :
    h' = h ∨ h' = h.update d fun s => { s with pending := none } := by
  unfold nothing at hr
  rcases run_bind hr with ⟨⟨⟩, h₁, hreport, hrest⟩ | ⟨e, hreport, -⟩
  · obtain rfl := run_report_ok hreport
    rcases run_bind hrest with ⟨s', h₃, hs', hlast⟩ | ⟨e, hs', rfl⟩
    · obtain ⟨rfl, -⟩ := run_station hs'
      split at hlast <;> (injection hlast with _ hh; exact .inl hh.symm)
    · exact .inl (run_station hs').1
  · exact report_cases hreport

/-- A pending error that is used up is no matter of the connection. -/
theorem Linked.forgive (hl : Linked a b h)
    (hh : h' = h ∨ h' = h.update b fun s => { s with pending := none }) :
    Linked a b h' ∧ h'.inboxOctets a = h.inboxOctets a ∧ h'.inboxOctets b = h.inboxOctets b := by
  rcases hh with rfl | rfl
  · exact ⟨hl, rfl, rfl⟩
  · obtain ⟨t, ht, hend⟩ := hl.far
    obtain ⟨hl', hnear, hfar⟩ := hl.update (f := fun s => { s with pending := none }) ht
      ⟨hend.kind, hend.role, hend.inbox⟩ rfl
    exact ⟨hl', hnear, hfar.trans (inboxOctets_eq ht).symm⟩

/-- A call that sends puts what it takes behind what lies at the other end. -/
theorem Linked.send (hl : Linked a b h) {octets : List UInt8} {flags : Nat}
    {pass : Option OpenFile} {answer : Except Errno Nat} (hne : octets ≠ [])
    (hr : (Host.send a octets flags pass).run h = (answer, h')) :
    Linked a b h' ∧ h'.inboxOctets a = h.inboxOctets a
      ∧ h'.inboxOctets b = h.inboxOctets b ++ SendCall.taken ⟨a, octets, flags, pass, answer⟩ := by
  obtain ⟨s, hs, hnear⟩ := hl.near
  obtain ⟨t, ht, hfar⟩ := hl.far
  rcases send_cases hr with ⟨e, rfl, hsame⟩ | ⟨rfl, s', peer, hs', hpeer, rfl⟩
  · rw [hsame s hs hnear.kind]
    exact ⟨hl, rfl, (List.append_nil _).symm⟩
  · obtain rfl : s = s' := Option.some.inj (hs.symm.trans hs')
    obtain rfl : b = peer := Role.connected.inj (hnear.role.symm.trans hpeer)
    have hinbox : ∀ g ∈ t.inbox ++ [⟨octets, pass⟩], g.octets ≠ [] := by
      intro g hg
      rcases List.mem_append.mp hg with hold | hnew
      · exact hfar.inbox g hold
      · obtain rfl := List.mem_singleton.mp hnew
        exact hne
    obtain ⟨hl', hback, hafter⟩ := hl.update
      (f := fun s => { s with inbox := s.inbox ++ [⟨octets, pass⟩] }) ht
      ⟨hfar.kind, hfar.role, hinbox⟩ rfl
    refine ⟨hl', hback, hafter.trans ?_⟩
    rw [inboxOctets_eq ht]
    simp [octetsOf, SendCall.taken]

/-- A call that receives takes from the front of what lies at its end, or fails and takes
nothing. -/
theorem Linked.receive (hl : Linked a b h) {room : Nat} {answer : Except Errno Incoming}
    (hr : (Host.receive b room).run h = (answer, h')) :
    Linked a b h' ∧ h'.inboxOctets a = h.inboxOctets a
      ∧ match answer with
        | .error _ => h'.inboxOctets b = h.inboxOctets b
        | .ok got => h.inboxOctets b = got.octets ++ h'.inboxOctets b
            ∧ (0 < room → got.octets = [] → h.inboxOctets b = []) := by
  obtain ⟨t, ht, hend⟩ := hl.far
  rcases receive_stream ht hend.kind hr with ⟨hqueue, hnothing⟩ | ⟨hsome, rfl, rfl⟩
  · have hnil : h.inboxOctets b = [] := by rw [inboxOctets_eq ht, hqueue]; rfl
    obtain ⟨hl', hnear, hfar⟩ := hl.forgive (nothing_cases hnothing)
    refine ⟨hl', hnear, ?_⟩
    cases answer with
    | error e => exact hfar
    | ok got =>
        obtain ⟨hgot, rfl⟩ := run_nothing hnothing
        exact ⟨by rw [hgot, List.nil_append], fun _ _ => hnil⟩
  · obtain ⟨hleft, htaken⟩ := takeOctets_solid room hend.inbox
    obtain ⟨hl', hnear, hafter⟩ := hl.update
      (f := fun s => { s with inbox := (takeOctets room t.inbox).2 }) ht
      ⟨hend.kind, hend.role, hleft⟩ rfl
    refine ⟨hl', hnear, ?_, fun hroom hnil => absurd hnil (htaken hroom hsome)⟩
    rw [inboxOctets_eq ht, hafter]
    exact takeOctets_spec room t.inbox

/-- Looking whether something lies at an end leaves it there. -/
theorem Linked.ready (hl : Linked a b h) {answer : Bool} (hr : Host.ready b h = (answer, h')) :
    Linked a b h' ∧ h'.inboxOctets a = h.inboxOctets a ∧ h'.inboxOctets b = h.inboxOctets b
      ∧ (answer = false → h.inboxOctets b = []) := by
  obtain ⟨t, ht, -⟩ := hl.far
  unfold Host.ready at hr
  rw [ht, Option.map_some, Option.getD_some] at hr
  split at hr
  · injection hr with ha hh
    subst ha hh
    exact ⟨hl, rfl, rfl, by simp⟩
  · rename_i hnone
    injection hr with ha hh
    obtain ⟨hl', hnear, hfar⟩ := hl.forgive (.inr hh.symm)
    refine ⟨hl', hnear, hfar, fun _ => ?_⟩
    rw [inboxOctets_eq ht]
    exact octetsOf_eq_nil (Bool.not_eq_true _ ▸ hnone)

theorem channel (a b : Descriptor) :
    Kernel.Channel a b (Linked a b) (inboxOctets b) (inboxOctets a) where
  send hl hne hsend := hl.send hne hsend
  receive hl hreceive := hl.receive hreceive
  refuse hl hreceive := hl.receive hreceive
  ready hl hready := hl.ready hready
  waiting {k} hl := by
    obtain ⟨t, ht, -⟩ := hl.far
    show _ ≤ ((k.station? b).map fun s => (s.inbox.flatMap Segment.octets).length).getD 0
    rw [inboxOctets_eq ht, ht]
    exact le_refl _

/-- **A stream of the host has a queue in each direction.** -/
theorem duplex (a b : Descriptor) :
    Kernel.Duplex a b (Linked a b) (inboxOctets b) (inboxOctets a) where
  there := channel a b
  back := by
    have hsame : Linked b a = Linked a b := funext fun h => propext ⟨.symm, .symm⟩
    rw [← hsame]
    exact channel b a

theorem linked_pair : Linked 0 1 pair :=
  ⟨by decide, ⟨_, rfl, rfl, rfl, by decide⟩, _, rfl, rfl, rfl, by decide⟩

end PacedNet.Host
