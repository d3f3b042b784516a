import PacedNet.Proofs.Host.Streaming
import PacedNet.Proofs.Socket.Copies

/-!
# Copies of files on a host

What hangs on a file of the host is its number only: calls that send look at neither the number nor
the file, they put it into an inbox. Read with one number for another, a host goes on as it does
(`send_mapFiles`). So a copy and its original are as good as each other (`copies`).
-/

namespace PacedNet

variable {h h' l : Host} {d : Descriptor} {f g : Station → Station} {octets : List UInt8}
  {flags : Nat} {passed : Option OpenFile} {number : OpenFile → OpenFile}

/-- The socket with the files in its inbox under other numbers. -/
def Station.mapFiles (number : OpenFile → OpenFile) (s : Station) : Station :=
  { s with
    inbox := s.inbox.map fun segment => { segment with passed := segment.passed.map number } }

namespace Host

/-- The host with the files that are on their way under other numbers, whatever is in them. -/
def mapFiles (number : OpenFile → OpenFile) (h : Host) : Host :=
  { h with stations := h.stations.map (Station.mapFiles number), contents := [] }

theorem station?_mapFiles :
    (h.mapFiles number).station? d = (h.station? d).map (Station.mapFiles number) := by
  unfold station? mapFiles
  rw [List.getElem?_map]
  cases h.stations[d]? with
  | none => rfl
  | some s => cases hopen : s.isOpen <;> simp [Option.filter, hopen, Station.mapFiles]

theorem mapFiles_update (hfg : ∀ s, (f s).mapFiles number = g (s.mapFiles number)) :
    (h.update d f).mapFiles number = (h.mapFiles number).update d g := by
  unfold update mapFiles
  congr 1
  refine List.ext_getElem? fun i => ?_
  rw [List.getElem?_map, List.getElem?_modify, List.getElem?_modify, List.getElem?_map]
  cases h.stations[i]? with
  | none => rfl
  | some s => by_cases hi : d = i <;> simp [hi, hfg]

/-- What becomes of octets that are sent. -/
inductive Fate where
  | refused (errno : Errno)
  /-- The peer is gone, and forgotten. -/
  | lost
  | delivered (peer : Descriptor)

/-- What becomes of octets that a socket sends. -/
def fate (h : Host) (d : Descriptor) (flags : Nat) : Fate :=
  match h.station? d with
  | none => .refused .badDescriptor
  | some s =>
    if flags &&& outOfBand ≠ 0 ∧ s.kind = .datagram then .refused .notSupported
    else match s.role with
      | .connected peer =>
        if s.writeShut then .refused .brokenPipe
        else match s.kind, h.station? peer with
          | .stream, none => .refused .brokenPipe
          | .datagram, none => .lost
          | kind, some target =>
            if kind = .datagram ∧ !welcomes target d then .refused .notPermitted
            else if target.readShut then .refused .brokenPipe
            else .delivered peer
      | _ => .refused .notConnected

/-- The answer to a send, and the host after it. -/
def Fate.result (h : Host) (d : Descriptor) (segment : Segment) : Fate → Except Errno Nat × Host
  | refused errno => (.error errno, h)
  | lost => (.error .connectionRefused, forget d h)
  | delivered peer => (.ok segment.octets.length, deliver peer segment h)

theorem run_send : (send d octets flags passed).run h
    = (h.fate d flags).result h d ⟨octets, passed⟩ := by
  unfold send fate
  cases hs : h.station? d with
  | none =>
      refine run_bind_of_error ?_
      unfold station
      rw [run_get_bind, hs]
      rfl
  | some s =>
      have hstation : (station d).run h = (.ok s, h) := by
        unfold station
        rw [run_get_bind, hs]
        rfl
      rw [run_bind_of_ok hstation]
      dsimp only
      split
      · rfl
      · cases s.role with
        | idle => rfl
        | listening backlog waiting => rfl
        | connected peer =>
            dsimp only
            split
            · rfl
            · rw [run_get_bind]
              cases h.station? peer with
              | none => cases s.kind <;> rfl
              | some target =>
                  cases s.kind <;>
                  · dsimp only
                    split
                    · rfl
                    · split <;> rfl

/-- Nobody looks at the numbers of files. -/
theorem fate_mapFiles : (h.mapFiles number).fate d flags = h.fate d flags := by
  unfold fate
  rw [station?_mapFiles]
  cases h.station? d with
  | none => rfl
  | some s =>
      obtain ⟨family, kind, name, peerName, role⟩ := s
      cases role with
      | idle => rfl
      | listening backlog waiting => rfl
      | connected peer =>
          dsimp only [Option.map_some, Station.mapFiles]
          rw [station?_mapFiles]
          cases kind <;> cases h.station? peer <;> rfl

theorem mapFiles_forget : (forget d h).mapFiles number = forget d (h.mapFiles number) :=
  mapFiles_update fun _ => rfl

theorem mapFiles_deliver {segment : Segment} : (deliver d segment h).mapFiles number
    = deliver d { segment with passed := segment.passed.map number } (h.mapFiles number) :=
  mapFiles_update fun s => by simp [Station.mapFiles]

/-- **A call that sends** goes the same way under other numbers. -/
theorem send_mapFiles :
    (send d octets flags (passed.map number)).run (h.mapFiles number)
      = (((send d octets flags passed).run h).1,
        ((send d octets flags passed).run h).2.mapFiles number) := by
  rw [run_send, run_send, fate_mapFiles]
  cases h.fate d flags with
  | refused errno => rfl
  | lost => exact congrArg (Prod.mk _) mapFiles_forget.symm
  | delivered peer =>
      show _ = (_, (deliver peer ⟨octets, passed⟩ h).mapFiles number)
      rw [mapFiles_deliver]
      rfl

theorem contents_send :
    ((send d octets flags passed).run h).2.contents = h.contents := by
  rw [run_send]
  cases h.fate d flags <;> rfl

/-- The numbering in which a copy and its file are one. -/
def merged (file copy number : OpenFile) : OpenFile := if number = copy then file else number

/-- Two hosts are alike that differ only by copies of one file: what is on its way under the number
of the copy in one of them is on its way under that of the file or of the copy in the other. -/
def Alike (h l : Host) : Prop :=
  ∃ file copy, l.contents[copy]? = l.contents[file]? ∧ h.contents <+: l.contents
    ∧ l.mapFiles (merged file copy) = h.mapFiles (merged file copy)

/-- A run of copying that succeeds. -/
theorem run_duplicate {file copy : OpenFile} (hrun : (duplicate file).run h = (.ok copy, l)) :
    ∃ content, h.contents[file]? = some content ∧ copy = h.contents.length
      ∧ l = { h with contents := h.contents ++ [content] } := by
  unfold duplicate at hrun
  rw [run_get_bind] at hrun
  split at hrun
  · injection hrun with hno _
    exact absurd hno (by simp)
  · rename_i content hcontent
    injection hrun with hcopy hl
    injection hcopy with hcopy
    exact ⟨content, hcontent, hcopy.symm, hl.symm⟩

theorem contents_copy {content : List UInt8} {file : OpenFile}
    (hcontent : h.contents[file]? = some content) :
    (h.contents ++ [content])[h.contents.length]? = (h.contents ++ [content])[file]? := by
  obtain ⟨hlt, -⟩ := List.getElem?_eq_some_iff.mp hcontent
  rw [List.getElem?_append_left hlt, hcontent]
  simp

/-- Hosts that are the same under some numbering answer a send alike. -/
theorem send_alike {passed' : Option OpenFile} {answer : Except Errno Nat}
    (hview : l.mapFiles number = h.mapFiles number)
    (hpassed : passed'.map number = passed.map number)
    (hsend : (send d octets flags passed).run h = (answer, h')) :
    ∃ l', (send d octets flags passed').run l = (answer, l')
      ∧ l'.mapFiles number = h'.mapFiles number ∧ l'.contents = l.contents
      ∧ h'.contents = h.contents := by
  have hl : (send d octets flags (passed'.map number)).run (l.mapFiles number) = _ := send_mapFiles
  have hh : (send d octets flags (passed.map number)).run (h.mapFiles number) = _ := send_mapFiles
  rw [hview, hpassed, hh, hsend] at hl
  injection hl with hanswer hafter
  have hcontents : h'.contents = h.contents := by
    have hkept : ((send d octets flags passed).run h).2.contents = h.contents := contents_send
    rwa [hsend] at hkept
  exact ⟨((send d octets flags passed').run l).2, Prod.ext hanswer.symm rfl, hafter.symm,
    contents_send, hcontents⟩

/-- **On a host a copy is as good as the original.** -/
theorem copies : Kernel.Copies (fun _ => Alike) Alike where
  made := by
    intro file copy h l hcopy
    obtain ⟨content, hcontent, rfl, rfl⟩ := run_duplicate hcopy
    exact ⟨file, h.contents.length, contents_copy hcontent, List.prefix_append _ _, rfl⟩
  passed := by
    intro file copy h l d octets flags answer h' hcopy hsend
    obtain ⟨content, hcontent, rfl, rfl⟩ := run_duplicate hcopy
    have hnumber : (some h.contents.length).map (merged file h.contents.length)
        = (some file).map (merged file h.contents.length) := by
      by_cases hfile : file = h.contents.length <;> simp [merged, hfile]
    have hview : ({ h with contents := h.contents ++ [content] } : Host).mapFiles
        (merged file h.contents.length) = h.mapFiles (merged file h.contents.length) := rfl
    obtain ⟨l', hsend', hview, hl, hh⟩ := send_alike hview hnumber hsend
    refine ⟨l', hsend', file, h.contents.length, ?_, ?_, hview⟩
    · rw [hl]
      exact contents_copy hcontent
    · rw [hl, hh]
      exact List.prefix_append _ _
  plain := by
    rintro - h l d octets flags answer h' ⟨file, copy, hsame, hmore, hview⟩ hsend
    obtain ⟨l', hsend', hview, hl, hh⟩ := send_alike hview rfl hsend
    exact ⟨l', hsend', file, copy, by rw [hl, hsame], by rwa [hl, hh], hview⟩
  closed := id

end Host

end PacedNet
