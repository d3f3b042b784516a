import PacedNet.Host.Calls
import PacedNet.Proofs.Socket.Fifo

/-!
# Streams of a host

What is sent over a stream of the host lies at the other end, in one piece and in
order, until it is received: a call that sends adds its octets at the end, a call that
receives takes octets from the front.
-/

namespace PacedNet.Host

variable {h h' : Host} {a b d e : Descriptor} {s s' : Station} {f : Station → Station}

/-! ## Stations -/

theorem station?_eq_some : h.station? d = some s ↔ h.stations[d]? = some s ∧ s.isOpen = true := by
  unfold station?
  rw [Option.filter_eq_some_iff]

theorem station?_update_self (hs : h.station? d = some s) (hf : (f s).isOpen = true) :
    (h.update d f).station? d = some (f s) := by
  obtain ⟨hat, -⟩ := station?_eq_some.mp hs
  refine station?_eq_some.mpr ⟨?_, hf⟩
  unfold update
  rw [List.getElem?_modify_eq, hat]
  rfl

theorem station?_update_ne (hne : d ≠ e) : (h.update d f).station? e = h.station? e := by
  unfold station? update
  dsimp only
  rw [List.getElem?_modify_ne _ _ hne]

/-- A run of looking a socket up. -/
theorem run_station {r : Except Errno Station} (hr : (station d).run h = (r, h')) :
    h' = h ∧ ∀ s, r = .ok s → h.station? d = some s := by
  unfold station at hr
  rw [run_get_bind] at hr
  split at hr
  · rename_i s hs
    injection hr with hr hh
    subst hr hh
    exact ⟨rfl, fun t ht => by injection ht with ht; rw [hs, ht]⟩
  · injection hr with hr hh
    subst hr hh
    exact ⟨rfl, by simp⟩

theorem run_station_error {e : Errno} (hr : (station d).run h = (.error e, h')) :
    h.station? d = none := by
  unfold station at hr
  rw [run_get_bind] at hr
  split at hr
  · injection hr with hno _
    exact absurd hno (by simp)
  · assumption

/-- A call that sends fails without a trace, or forgets a peer that is gone, or delivers all. -/
theorem send_outcomes {octets : List UInt8} {flags : Nat} {passed : Option OpenFile}
    {r : Except Errno Nat} (hr : (send d octets flags passed).run h = (r, h')) :
    (∃ e, r = .error e) ∧ h' = h
      ∨ (∃ s, h.station? d = some s ∧ s.kind = .datagram) ∧ r = .error .connectionRefused
        ∧ h' = forget d h
      ∨ r = .ok octets.length ∧ ∃ s peer, h.station? d = some s ∧ s.role = .connected peer
          ∧ h' = deliver peer ⟨octets, passed⟩ h := by
  unfold send at hr
  rcases run_bind hr with ⟨s, h₁, hs, hrest⟩ | ⟨e, hs, rfl⟩
  · obtain ⟨rfl, hs⟩ := run_station hs
    have hs := hs s rfl
    have unchanged {e : Errno} (hfail : (Except.error e, h₁) = (r, h')) :
        (∃ e, r = .error e) ∧ h' = h₁ := by
      injection hfail with hr hh
      exact ⟨⟨e, hr.symm⟩, hh.symm⟩
    dsimp only at hrest
    split at hrest
    · exact .inl (unchanged hrest)
    · split at hrest
      · rename_i peer hrole
        split at hrest
        · exact .inl (unchanged hrest)
        · rw [run_get_bind] at hrest
          split at hrest
          · exact .inl (unchanged hrest)
          · rename_i hkind _
            injection hrest with hr hh
            exact .inr (.inl ⟨⟨s, hs, hkind⟩, hr.symm, hh.symm⟩)
          · split at hrest
            · exact .inl (unchanged hrest)
            · split at hrest
              · exact .inl (unchanged hrest)
              · rw [run_modify_bind] at hrest
                injection hrest with hn hh
                exact .inr (.inr ⟨hn.symm, s, peer, hs, hrole, hh.symm⟩)
      · exact .inl (unchanged hrest)
  · exact .inl ⟨⟨e, rfl⟩, (run_station hs).1⟩

/-- A call that sends delivers all to the peer, or fails. On a stream it then leaves the host as it
was. -/
theorem send_cases {octets : List UInt8} {flags : Nat} {passed : Option OpenFile}
    {r : Except Errno Nat} (hr : (send d octets flags passed).run h = (r, h')) :
    (∃ e, r = .error e ∧ ∀ s, h.station? d = some s → s.kind = .stream → h' = h)
      ∨ r = .ok octets.length ∧ ∃ s peer, h.station? d = some s ∧ s.role = .connected peer
          ∧ h' = deliver peer ⟨octets, passed⟩ h := by
  rcases send_outcomes hr with ⟨⟨e, he⟩, hh⟩ | ⟨⟨s, hs, hkind⟩, he, -⟩ | hok
  · exact .inl ⟨e, he, fun _ _ _ => hh⟩
  · refine .inl ⟨_, he, fun t ht hstream => ?_⟩
    obtain rfl : s = t := Option.some.inj (hs.symm.trans ht)
    exact absurd (hkind.symm.trans hstream) (by decide)
  · exact .inr hok

/-! ## Taking octets -/

/-- The octets of segments, in their order. -/
def octetsOf (queue : List Segment) : List UInt8 := queue.flatMap Segment.octets

/-- Octets are taken from the front, and what is left is what was behind them. -/
theorem takeOctets_spec (room : Nat) (queue : List Segment) :
    octetsOf queue = (takeOctets room queue).1.octets ++ octetsOf (takeOctets room queue).2 := by
  induction queue generalizing room with
  | nil => cases room <;> rfl
  | cons segment rest ih =>
      cases room with
      | zero => rfl
      | succ room =>
          rw [takeOctets]
          split
          · rename_i b left hdrop
            show segment.octets ++ octetsOf rest
              = segment.octets.take (room + 1) ++ (b :: left ++ octetsOf rest)
            rw [← hdrop, ← List.append_assoc, List.take_append_drop]
          · rfl
          · show segment.octets ++ octetsOf rest = _
            rw [ih (room + 1 - segment.octets.length)]
            simp

/-- Where no file comes along, none is left behind. -/
theorem passed_takeOctets (room : Nat) {queue : List Segment} (hq : ∀ g ∈ queue, g.passed = none) :
    ∀ g ∈ (takeOctets room queue).2, g.passed = none := by
  induction queue generalizing room with
  | nil => cases room <;> simp [takeOctets]
  | cons segment rest ih =>
      have hrest : ∀ g ∈ rest, g.passed = none := fun g hg => hq g (List.mem_cons_of_mem _ hg)
      cases room with
      | zero => exact hq
      | succ room =>
          rw [takeOctets]
          split
          · intro g hg
            rcases List.mem_cons.mp hg with rfl | hg
            · rfl
            · exact hrest g hg
          · exact hrest
          · exact ih _ hrest

/-- With room to take, nothing is taken only where there is nothing. -/
theorem takeOctets_eq_nil {room : Nat} {queue : List Segment} (hroom : 0 < room)
    (hq : ∀ g ∈ queue, g.passed = none) (h : (takeOctets room queue).1.octets = []) :
    octetsOf queue = [] := by
  induction queue generalizing room with
  | nil => rfl
  | cons segment rest ih =>
      obtain ⟨room, rfl⟩ := Nat.exists_eq_add_of_lt hroom
      rw [Nat.zero_add] at h
      rw [takeOctets] at h
      split at h
      · rename_i b left hdrop
        have hlen := congrArg List.length hdrop
        have hnil := congrArg List.length (show segment.octets.take (room + 1) = [] from h)
        simp only [List.length_drop, List.length_take, List.length_cons, List.length_nil] at hlen hnil
        omega
      · rename_i file _ hfile
        exact absurd (hq segment List.mem_cons_self) (by rw [hfile]; simp)
      · obtain ⟨hempty, hmore⟩ := List.append_eq_nil_iff.mp
          (show segment.octets ++ (takeOctets (room + 1 - segment.octets.length) rest).1.octets = []
            from h)
        rw [hempty] at hmore
        have hrest := ih (Nat.succ_pos _) (fun g hg => hq g (List.mem_cons_of_mem _ hg)) hmore
        show segment.octets ++ octetsOf rest = []
        rw [hempty, hrest]
        rfl

/-! ## The host as a kernel with queues -/

/-- A stream whose other end is `b`, and that end, to which no file is on its way. -/
structure Joined (a b : Descriptor) (h : Host) : Prop where
  apart : a ≠ b
  near : ∃ s, h.station? a = some s ∧ s.kind = .stream ∧ s.role = .connected b
  far : ∃ t, h.station? b = some t ∧ t.kind = .stream ∧ ∀ g ∈ t.inbox, g.passed = none

/-- The octets that lie in an inbox. -/
def inboxOctets (d : Descriptor) (h : Host) : List UInt8 :=
  ((h.station? d).map fun s => octetsOf s.inbox).getD []

theorem inboxOctets_eq (hs : h.station? d = some s) : h.inboxOctets d = octetsOf s.inbox := by
  unfold inboxOctets
  rw [hs]
  rfl

/-- Another inbox at the far end joins the same ends. -/
theorem Joined.update_far (hj : Joined a b h) {t : Station} (ht : h.station? b = some t)
    (hkind : (f t).kind = t.kind) (hopen : (f t).isOpen = t.isOpen)
    (hinbox : ∀ g ∈ (f t).inbox, g.passed = none) :
    Joined a b (h.update b f) ∧ (h.update b f).inboxOctets b = octetsOf (f t).inbox := by
  obtain ⟨s, hs⟩ := hj.near
  obtain ⟨t', ht', hstream, -⟩ := hj.far
  obtain rfl : t = t' := by rw [ht] at ht'; injection ht'
  have hft : (h.update b f).station? b = some (f t) :=
    station?_update_self ht (hopen.trans (station?_eq_some.mp ht).2)
  refine ⟨⟨hj.apart, ⟨s, ?_, hs.2⟩, f t, hft, hkind.trans hstream, hinbox⟩, inboxOctets_eq hft⟩
  rw [station?_update_ne hj.apart.symm]
  exact hs.1

theorem takesSome : Kernel.TakesSome Host := by
  intro d octets flags pass h n hne hn
  have hrun : (Host.send d octets flags pass).run h
      = (.ok n, (Kernel.send d octets flags pass h).2) := Prod.ext hn rfl
  rcases send_cases hrun with ⟨e, he, -⟩ | ⟨hok, -⟩
  · exact absurd he (by simp)
  · injection hok with hok
    subst hok
    exact ⟨List.length_pos_iff.mpr hne, le_refl _⟩

/-- A call that sends puts what it takes behind what lies at the far end. -/
theorem Joined.send (hj : Joined a b h) {octets : List UInt8} {flags : Nat}
    {answer : Except Errno Nat} (hr : (Host.send a octets flags none).run h = (answer, h')) :
    Joined a b h' ∧ h'.inboxOctets b
      = h.inboxOctets b ++ SendCall.taken ⟨a, octets, flags, none, answer⟩ := by
  obtain ⟨s, hs, hstream, hrole⟩ := hj.near
  obtain ⟨t, ht, -, hinbox⟩ := hj.far
  rcases send_cases hr with ⟨e, rfl, hsame⟩ | ⟨rfl, s', peer, hs', hpeer, rfl⟩
  · rw [hsame s hs hstream]
    exact ⟨hj, (List.append_nil _).symm⟩
  · obtain rfl : s = s' := by rw [hs] at hs'; injection hs'
    obtain rfl : b = peer := by rw [hrole] at hpeer; injection hpeer
    obtain ⟨hj', hafter⟩ := hj.update_far (f := fun s => { s with inbox := s.inbox ++ [⟨octets, none⟩] })
      ht rfl rfl (by simpa [or_imp, forall_and] using hinbox)
    refine ⟨hj', hafter.trans ?_⟩
    rw [inboxOctets_eq ht]
    simp [octetsOf, SendCall.taken]

/-- Looking for a pending error uses it up at most. -/
theorem report_cases {r : Except Errno Unit} (hr : (report d).run h = (r, h')) :
    h' = h ∨ h' = h.update d fun s => { s with pending := none } := by
  unfold report at hr
  rcases run_bind hr with ⟨s, h₁, hs, hrest⟩ | ⟨e, hs, -⟩
  · obtain ⟨rfl, -⟩ := run_station hs
    split at hrest
    · rw [run_modify_bind] at hrest
      injection hrest with _ hh
      exact .inr hh.symm
    · injection hrest with _ hh
      exact .inl hh.symm
  · exact .inl (run_station hs).1

theorem run_report_ok (hr : (report d).run h = (.ok (), h')) : h' = h := by
  unfold report at hr
  obtain ⟨s, h₁, hs, hnone⟩ := run_bind_ok hr
  obtain ⟨rfl, -⟩ := run_station hs
  split at hnone
  · rw [run_modify_bind] at hnone
    injection hnone with hno _
    exact absurd hno (by simp)
  · injection hnone with _ hh
    exact hh.symm

/-- What a receive finds where nothing is. -/
theorem run_nothing {got : Incoming} (hr : (nothing d).run h = (.ok got, h')) :
    got = ⟨[], 0, none⟩ ∧ h' = h := by
  unfold nothing at hr
  obtain ⟨⟨⟩, h₁, hreport, hrest⟩ := run_bind_ok hr
  obtain rfl := run_report_ok hreport
  obtain ⟨s', h₃, hs', hlast⟩ := run_bind_ok hrest
  obtain ⟨rfl, -⟩ := run_station hs'
  split at hlast
  · injection hlast with hgot hh
    injection hgot with hgot
    exact ⟨hgot.symm, hh.symm⟩
  · injection hlast with hno _
    exact absurd hno (by simp)

/-- A receive from a stream takes octets from the inbox, unless nothing is there. -/
theorem receive_stream (hs : h.station? d = some s) (hkind : s.kind = .stream) {room : Nat}
    {r : Except Errno Incoming} (hr : (receive d room).run h = (r, h')) :
    s.inbox = [] ∧ (nothing d).run h = (r, h')
      ∨ s.inbox ≠ [] ∧ r = .ok (takeOctets room s.inbox).1
        ∧ h' = h.update d fun t => { t with inbox := (takeOctets room s.inbox).2 } := by
  unfold receive at hr
  rcases run_bind hr with ⟨s', h₁, hs', hrest⟩ | ⟨e, hs', -⟩
  · obtain ⟨rfl, heq⟩ := run_station hs'
    obtain rfl : s = s' := Option.some.inj (hs.symm.trans (heq _ rfl))
    rw [hkind] at hrest
    cases hqueue : s.inbox with
    | nil =>
        rw [hqueue] at hrest
        exact .inl ⟨rfl, hrest⟩
    | cons g rest =>
        rw [hqueue] at hrest
        injection hrest with hr hh
        exact .inr ⟨by simp, hr.symm, hh.symm⟩
  · exact absurd (hs.symm.trans (run_station_error hs')) (by simp)

/-- A receive takes octets from the front of what lies at the far end. -/
theorem Joined.receive (hj : Joined a b h) {room : Nat} {got : Incoming}
    (hr : (Host.receive b room).run h = (.ok got, h')) :
    Joined a b h' ∧ h.inboxOctets b = got.octets ++ h'.inboxOctets b
      ∧ (0 < room → got.octets = [] → h.inboxOctets b = []) := by
  obtain ⟨t, ht, hstream, hinbox⟩ := hj.far
  rcases receive_stream ht hstream hr with ⟨hqueue, hnothing⟩ | ⟨-, hgot, rfl⟩
  · obtain ⟨hgot, rfl⟩ := run_nothing hnothing
    have hnil : h'.inboxOctets b = [] := by rw [inboxOctets_eq ht, hqueue]; rfl
    exact ⟨hj, by rw [hgot, List.nil_append], fun _ _ => hnil⟩
  · injection hgot with hgot
    subst hgot
    obtain ⟨hj', hafter⟩ := hj.update_far
      (f := fun s => { s with inbox := (takeOctets room t.inbox).2 }) ht rfl rfl
      (passed_takeOctets room hinbox)
    rw [inboxOctets_eq ht, hafter]
    exact ⟨hj', takeOctets_spec room t.inbox, fun hroom hnil => takeOctets_eq_nil hroom hinbox hnil⟩

theorem octetsOf_eq_nil {queue : List Segment} (h : queue.any (!·.octets.isEmpty) = false) :
    octetsOf queue = [] := by
  refine List.flatMap_eq_nil_iff.mpr fun g hg => ?_
  simpa using List.any_eq_false.mp h g hg

/-- Looking whether something lies at the far end leaves it there. -/
theorem Joined.ready (hj : Joined a b h) {answer : Bool} (hr : Host.ready b h = (answer, h')) :
    Joined a b h' ∧ h'.inboxOctets b = h.inboxOctets b
      ∧ (answer = false → h.inboxOctets b = []) := by
  obtain ⟨t, ht, -, hinbox⟩ := hj.far
  unfold Host.ready at hr
  rw [ht, Option.map_some, Option.getD_some] at hr
  split at hr
  · injection hr with ha hh
    subst ha hh
    exact ⟨hj, rfl, by simp⟩
  · rename_i hnone
    injection hr with ha hh
    subst ha hh
    obtain ⟨hj', hafter⟩ :=
      hj.update_far (f := fun s => { s with pending := none }) ht rfl rfl hinbox
    rw [inboxOctets_eq ht, hafter]
    exact ⟨hj', rfl, fun _ => octetsOf_eq_nil (Bool.not_eq_true _ ▸ hnone)⟩

theorem Joined.waiting (hj : Joined a b h) : h.waiting b = (h.inboxOctets b).length := by
  obtain ⟨t, ht, -⟩ := hj.far
  unfold Host.waiting
  rw [inboxOctets_eq ht, ht]
  rfl

theorem shut_fields (how : Direction) (s : Station) : (shut how s).kind = s.kind
    ∧ (shut how s).role = s.role ∧ (shut how s).inbox = s.inbox
    ∧ (shut how s).isOpen = s.isOpen := by
  cases how <;> exact ⟨rfl, rfl, rfl, rfl⟩

/-- Shutting the near end leaves what lies at the far end. -/
theorem Joined.shutdown (hj : Joined a b h) {how : Direction} {answer : Except Errno Unit}
    (hr : (Host.shutdown a how).run h = (answer, h')) :
    Joined a b h' ∧ h'.inboxOctets b = h.inboxOctets b := by
  obtain ⟨s, hs, hstream, hrole⟩ := hj.near
  obtain ⟨t, ht, htstream, hinbox⟩ := hj.far
  unfold Host.shutdown at hr
  rcases run_bind hr with ⟨s', h₁, hs', h₂⟩ | ⟨e, hs', rfl⟩
  · obtain ⟨rfl, heq⟩ := run_station hs'
    obtain rfl : s = s' := by have := heq _ rfl; rw [hs] at this; injection this
    rw [run_modify_bind, hstream, hrole] at h₂
    injection h₂ with _ hh
    obtain ⟨hkind, hsame, -, hopen⟩ := shut_fields how s
    have hnear : (h₁.update a (shut how)).station? a = some (shut how s) :=
      station?_update_self hs (hopen.trans (station?_eq_some.mp hs).2)
    have hfar : (h₁.update a (shut how)).station? b = some t := by
      rw [station?_update_ne hj.apart]
      exact ht
    have hj' : Joined a b (h₁.update a (shut how)) :=
      ⟨hj.apart, ⟨_, hnear, hkind.trans hstream, hsame.trans hrole⟩, t, hfar, htstream, hinbox⟩
    obtain ⟨hkind', -, hinbox', hopen'⟩ := shut_fields (facing how) t
    obtain ⟨hj'', hafter⟩ := hj'.update_far hfar hkind' hopen' (by rwa [hinbox'])
    rw [← hh]
    exact ⟨hj'', by rw [inboxOctets_eq ht, ← hinbox']; exact hafter⟩
  · obtain ⟨rfl, -⟩ := run_station hs'
    exact ⟨hj, rfl⟩

/-- **The host keeps a queue for each stream.** -/
theorem fifo (a b : Descriptor) : Kernel.Fifo a b (Joined a b) (inboxOctets b) where
  send hj hsend := hj.send hsend
  receive hj hreceive := hj.receive hreceive
  ready hj hready := hj.ready hready
  waiting hj := hj.waiting.ge
  shutdown hj hshutdown := hj.shutdown hshutdown

/-- Two streams that are each other's ends. -/
def pair : Host where
  stations := [{ fresh .unix .stream with role := .connected 1 },
    { fresh .unix .stream with role := .connected 0 }]
  nodes := []
  contents := []
  nextPort := firstPort
  appendOnly := false

theorem joined_pair : Joined 0 1 pair :=
  ⟨by decide, ⟨_, rfl, rfl, rfl⟩, _, rfl, rfl, by decide⟩

end PacedNet.Host
