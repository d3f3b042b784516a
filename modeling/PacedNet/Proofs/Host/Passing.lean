import PacedNet.Proofs.Host.Duplex
import PacedNet.Proofs.Socket.Passing

/-!
# Files on their way through a host

A file that is sent along with octets lies in the peer's inbox with their segment. Whoever takes of
that segment takes the file, and no octets behind it, so that a call takes one file at most. A
stream of the host passes descriptors in order (`passing`).
-/

namespace PacedNet.Host

variable {h h' : Host} {a b d e : Descriptor} {s t : Station} {f : Station → Station}

/-- The files of segments, in their order. -/
def filesOf (queue : List Segment) : List OpenFile := queue.filterMap Segment.passed

/-- The files that lie in an inbox. -/
def filesTo (d : Descriptor) (h : Host) : List OpenFile :=
  ((h.station? d).map fun s => filesOf s.inbox).getD []

theorem filesTo_eq (hs : h.station? d = some s) : h.filesTo d = filesOf s.inbox := by
  unfold filesTo
  rw [hs]
  rfl

theorem filesTo_update (hs : h.station? d = some s) (hopen : (f s).isOpen = s.isOpen) :
    (h.update d f).filesTo d = filesOf (f s).inbox :=
  filesTo_eq (station?_update_self hs (hopen.trans (station?_eq_some.mp hs).2))

theorem filesTo_update_ne (hne : d ≠ e) : (h.update d f).filesTo e = h.filesTo e := by
  unfold filesTo
  rw [station?_update_ne hne]

/-- A file is taken from the front, with octets or not at all. -/
theorem filesOf_takeOctets (room : Nat) (queue : List Segment) :
    filesOf queue
      = (takeOctets room queue).1.passed.toList ++ filesOf (takeOctets room queue).2 := by
  induction queue generalizing room with
  | nil => cases room <;> rfl
  | cons segment rest ih =>
      cases room with
      | zero => rfl
      | succ room =>
          have hfirst : filesOf (segment :: rest) = segment.passed.toList ++ filesOf rest := by
            unfold filesOf
            rw [List.filterMap_cons]
            cases segment.passed <;> rfl
          rw [hfirst, takeOctets]
          split
          · rfl
          · rename_i file _ hfile
            rw [hfile]
          · rename_i hnone
            rw [hnone]
            exact ih _

/-- A pending error that is used up is no matter of the files. -/
theorem Linked.filesTo_forgive (hl : Linked a b h)
    (hh : h' = h ∨ h' = h.update b fun s => { s with pending := none }) :
    h'.filesTo b = h.filesTo b := by
  rcases hh with rfl | rfl
  · rfl
  · obtain ⟨t, ht, -⟩ := hl.far
    rw [filesTo_update ht rfl, filesTo_eq ht]

theorem Linked.filesTo_send (hl : Linked a b h) {octets : List UInt8} {flags : Nat}
    {pass : Option OpenFile} {answer : Except Errno Nat}
    (hr : (Host.send a octets flags pass).run h = (answer, h')) :
    h'.filesTo b = h.filesTo b ++ handedOver pass answer ∧ h'.filesTo a = h.filesTo a := by
  obtain ⟨s, hs, hnear⟩ := hl.near
  obtain ⟨t, ht, -⟩ := hl.far
  rcases send_cases hr with ⟨errno, rfl, hsame⟩ | ⟨rfl, s', peer, hs', hpeer, rfl⟩
  · rw [hsame s hs hnear.kind]
    exact ⟨(List.append_nil _).symm, rfl⟩
  · obtain rfl : s = s' := Option.some.inj (hs.symm.trans hs')
    obtain rfl : b = peer := Role.connected.inj (hnear.role.symm.trans hpeer)
    refine ⟨?_, filesTo_update_ne hl.apart.symm⟩
    unfold deliver
    rw [filesTo_update ht rfl, filesTo_eq ht]
    unfold filesOf
    rw [List.filterMap_append]
    cases pass <;> rfl

theorem Linked.filesTo_receive (hl : Linked a b h) {room : Nat} {answer : Except Errno Incoming}
    (hr : (Host.receive b room).run h = (answer, h')) :
    h.filesTo b = cameAlong answer ++ h'.filesTo b ∧ h'.filesTo a = h.filesTo a := by
  obtain ⟨t, ht, hend⟩ := hl.far
  rcases receive_stream ht hend.kind hr with ⟨-, hnothing⟩ | ⟨-, rfl, rfl⟩
  · have hcases := nothing_cases hnothing
    have hsame := hl.filesTo_forgive hcases
    refine ⟨?_, ?_⟩
    · cases answer with
      | error errno => exact hsame.symm
      | ok got =>
          obtain ⟨rfl, -⟩ := run_nothing hnothing
          exact hsame.symm
    · rcases hcases with rfl | rfl
      · rfl
      · exact filesTo_update_ne hl.apart.symm
  · refine ⟨?_, filesTo_update_ne hl.apart.symm⟩
    rw [filesTo_update ht rfl, filesTo_eq ht]
    exact filesOf_takeOctets room t.inbox

/-- **A stream of the host passes descriptors in order.** -/
theorem passing (a b : Descriptor) : Kernel.Passing a b (Linked a b) (filesTo b) where
  send hl hne hsend := ⟨(hl.send hne hsend).1, (hl.filesTo_send hsend).1⟩
  receive hl hreceive := ⟨(hl.receive hreceive).1, (hl.filesTo_receive hreceive).1⟩
  ready {answer h h'} hl hready := by
    refine ⟨(hl.ready hready).1, hl.filesTo_forgive ?_⟩
    have hrun : Host.ready b h = (answer, h') := hready
    unfold Host.ready at hrun
    split at hrun <;> injection hrun with _ hh
    · exact .inl hh.symm
    · exact .inr hh.symm
  reply hl hne hsend := ⟨(hl.symm.send hne hsend).1.symm, (hl.symm.filesTo_send hsend).2⟩
  awaitReply hl hreceive :=
    ⟨(hl.symm.receive hreceive).1.symm, (hl.symm.filesTo_receive hreceive).2⟩

end PacedNet.Host
