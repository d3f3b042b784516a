import PacedNet.Proofs.Host.Inbox
import PacedNet.Proofs.Host.Places
import Mathlib.Logic.Relation

/-!
# Connections that wait

A connection that was asked for waits at the listening socket until it is accepted. Of what waits
there is always a socket, whatever a program asks of the host (`orderly_reaches`).
-/

namespace PacedNet

/-- A call of the kernel that may change it, whatever it answers. -/
inductive Kernel.Step {K : Type} [Kernel K] (k k' : K) : Prop where
  | lookUp {name : String} {port : UInt16} {answer : Except String (List Internet)}
      (h : Kernel.lookUp name port k = (answer, k'))
  | create {family : Family} {kind : Kind} {answer : Except Errno Descriptor}
      (h : Kernel.create family kind k = (answer, k'))
  | bind {d : Descriptor} {e : Endpoint} {answer : Except Errno Unit}
      (h : Kernel.bind d e k = (answer, k'))
  | listen {d : Descriptor} {backlog : Int} {answer : Except Errno Unit}
      (h : Kernel.listen d backlog k = (answer, k'))
  | accept {d : Descriptor} {answer : Except Errno (Descriptor × Option Endpoint)}
      (h : Kernel.accept d k = (answer, k'))
  | connect {d : Descriptor} {e : Endpoint} {answer : Except Errno Unit}
      (h : Kernel.connect d e k = (answer, k'))
  | awaitWritable {d : Descriptor} {answer : Except Errno Unit}
      (h : Kernel.awaitWritable d k = (answer, k'))
  | set {d : Descriptor} {setting : Setting} {answer : Except Errno Unit}
      (h : Kernel.set d setting k = (answer, k'))
  | takeError {d : Descriptor} {answer : Except Errno (Option Errno)}
      (h : Kernel.takeError d k = (answer, k'))
  | send {d : Descriptor} {octets : List UInt8} {flags : Nat} {passed : Option OpenFile}
      {answer : Except Errno Nat} (h : Kernel.send d octets flags passed k = (answer, k'))
  | receive {d : Descriptor} {room : Nat} {answer : Except Errno Incoming}
      (h : Kernel.receive d room k = (answer, k'))
  | nextLength {d : Descriptor} {answer : Except Errno Nat}
      (h : Kernel.nextLength d k = (answer, k'))
  | ready {d : Descriptor} {answer : Bool} (h : Kernel.ready d k = (answer, k'))
  | shutdown {d : Descriptor} {how : Direction} {answer : Except Errno Unit}
      (h : Kernel.shutdown d how k = (answer, k'))
  | close {d : Descriptor} {answer : Except Errno Unit} (h : Kernel.close d k = (answer, k'))
  | unlink {path : List UInt8} {answer : Except Errno Unit}
      (h : Kernel.unlink path k = (answer, k'))
  | duplicate {file : OpenFile} {answer : Except Errno OpenFile}
      (h : Kernel.duplicate file k = (answer, k'))
  | closeFile {file : OpenFile} (h : Kernel.closeFile file k = k')

namespace Host

variable {h h' : Host} {d e i : Descriptor} {s target far : Station} {f : Station → Station}
  {backlog : Int} {waiting : List Descriptor}

/-- The connections that wait at a socket. -/
def queue (s : Station) : List Descriptor :=
  match s.role with
  | .listening _ waiting => waiting
  | _ => []

/-- A connection that waits to be accepted. -/
def Awaits (h : Host) (d : Descriptor) : Prop :=
  ∃ (e : Descriptor) (s : Station), h.stations[e]? = some s ∧ d ∈ queue s

/-- Whatever waits is there. -/
def Orderly (h : Host) : Prop := ∀ d, h.Awaits d → d < h.stations.length

/-- A socket that listens, and for which these wait. -/
def listens (backlog : Int) (waiting : List Descriptor) (s : Station) : Station :=
  { s with role := .listening backlog waiting }

/-- A socket that is connected. -/
def joined (far : Descriptor) (peerName : Option Endpoint) (s : Station) : Station :=
  { s with role := .connected far, peerName }

/-- A socket that is closed. -/
def gone (s : Station) : Station := { s with isOpen := false, inbox := [] }

/-! ## Sockets that change -/

theorem getElem?_update (h : Host) (d e : Descriptor) (f : Station → Station) :
    (h.update d f).stations[e]? = if d = e then h.stations[e]?.map f else h.stations[e]? := by
  unfold update
  rw [List.getElem?_modify]
  split_ifs <;> simp

theorem awaits_update (hf : ∀ s, h.stations[d]? = some s → queue (f s) = queue s) :
    (h.update d f).Awaits e ↔ h.Awaits e := by
  unfold Awaits
  refine exists_congr fun i => ?_
  rw [getElem?_update]
  split_ifs with hi
  · subst hi
    cases hs : h.stations[d]? with
    | none => simp
    | some s => simp [hf s hs]
  · rfl

/-- No queue grows. -/
theorem orderly_update (hh : h.Orderly)
    (hf : ∀ s, h.stations[d]? = some s → queue (f s) ⊆ queue s) : (h.update d f).Orderly := by
  rintro e ⟨i, s, hs, he⟩
  have hwaits : h.Awaits e := by
    rw [getElem?_update] at hs
    split_ifs at hs with hi
    · subst hi
      obtain ⟨t, ht, rfl⟩ := Option.map_eq_some_iff.mp hs
      exact ⟨_, t, ht, hf t ht he⟩
    · exact ⟨i, s, hs, he⟩
  simpa [update] using hh e hwaits

/-- What is in order is read off the sockets. -/
theorem Orderly.congr (hh : h.Orderly) (hstations : h'.stations = h.stations) : h'.Orderly := by
  unfold Orderly Awaits
  rw [hstations]
  exact hh

theorem awaits_gone : (h.update d gone).Awaits e ↔ h.Awaits e := awaits_update fun _ _ => rfl

/-! ## Sockets that are new -/

/-- The host with one socket more. -/
def extend (h : Host) (s : Station) : Host := { h with stations := h.stations ++ [s] }

theorem getElem?_extend {i : Nat} {t : Station} : (h.extend s).stations[i]? = some t ↔
    h.stations[i]? = some t ∨ i = h.stations.length ∧ s = t := by
  unfold extend
  rcases lt_trichotomy i h.stations.length with hi | rfl | hi
  · rw [List.getElem?_append_left hi]
    simp [hi.ne]
  · simp
  · have hnone : (h.stations ++ [s])[i]? = none := List.getElem?_eq_none (by simp; omega)
    have hnone' : h.stations[i]? = none := List.getElem?_eq_none hi.le
    simp [hnone, hnone', hi.ne']

theorem awaits_extend (hs : queue s = []) : (h.extend s).Awaits d ↔ h.Awaits d := by
  unfold Awaits
  simp only [getElem?_extend]
  constructor
  · rintro ⟨i, t, ht | ⟨-, rfl⟩, hd⟩
    · exact ⟨i, t, ht, hd⟩
    · rw [hs] at hd
      cases hd
  · rintro ⟨i, t, ht, hd⟩
    exact ⟨i, t, .inl ht, hd⟩

theorem orderly_extend (hh : h.Orderly) (hs : queue s = []) : (h.extend s).Orderly := by
  intro e he
  have hlt := hh e ((awaits_extend hs).mp he)
  simp only [extend, List.length_append]
  exact Nat.lt_add_right _ hlt

/-- The host with a connection more that waits. -/
def enqueue (h : Host) (i : Descriptor) (backlog : Int) (waiting : List Descriptor)
    (far : Station) : Host :=
  (h.extend far).update i (listens backlog (waiting ++ [h.stations.length]))

theorem getElem?_enqueue {j : Nat} {t : Station} (htarget : h.stations[i]? = some target) :
    (h.enqueue i backlog waiting far).stations[j]? = some t
      ↔ j = i ∧ t = listens backlog (waiting ++ [h.stations.length]) target
        ∨ j ≠ i ∧ (h.stations[j]? = some t ∨ j = h.stations.length ∧ far = t) := by
  unfold enqueue
  rw [getElem?_update]
  split_ifs with hi
  · subst hi
    rw [getElem?_extend.mpr (.inl htarget)]
    simp [eq_comm]
  · rw [getElem?_extend]
    simp [Ne.symm hi]

/-- The new connection waits, and so does what waited before. -/
theorem awaits_enqueue (htarget : h.stations[i]? = some target) (hqueue : queue target = waiting)
    (hfar : queue far = []) : (h.enqueue i backlog waiting far).Awaits d
      ↔ h.Awaits d ∨ d = h.stations.length := by
  unfold Awaits
  simp only [getElem?_enqueue htarget]
  constructor
  · rintro ⟨j, t, ⟨rfl, rfl⟩ | ⟨-, ht | ⟨-, rfl⟩⟩, hd⟩
    · rcases List.mem_append.mp hd with hd | hd
      · exact .inl ⟨_, _, htarget, hqueue ▸ hd⟩
      · exact .inr (List.mem_singleton.mp hd)
    · exact .inl ⟨j, t, ht, hd⟩
    · rw [hfar] at hd
      cases hd
  · rintro (⟨j, t, ht, hd⟩ | rfl)
    · by_cases hj : j = i
      · subst hj
        obtain rfl := Option.some.inj (htarget.symm.trans ht)
        exact ⟨_, _, .inl ⟨rfl, rfl⟩, List.mem_append_left _ (hqueue ▸ hd)⟩
      · exact ⟨j, t, .inr ⟨hj, .inl ht⟩, hd⟩
    · exact ⟨i, _, .inl ⟨rfl, rfl⟩, List.mem_append_right _ (List.mem_singleton.mpr rfl)⟩

theorem orderly_enqueue (hh : h.Orderly) (htarget : h.stations[i]? = some target)
    (hqueue : queue target = waiting) (hfar : queue far = []) :
    (h.enqueue i backlog waiting far).Orderly := by
  intro d hd
  have hle : d < h.stations.length + 1 := by
    rcases (awaits_enqueue htarget hqueue hfar).mp hd with hd | rfl
    · exact Nat.lt_succ_of_lt (hh d hd)
    · exact Nat.lt_succ_self _
  simpa [enqueue, update, extend] using hle

/-! ## Calls -/

/-- A bind names its socket, or does nothing. -/
theorem stations_bind {e : Endpoint} {r : Except Errno Unit} (hrun : (bind d e).run h = (r, h')) :
    (∃ errno, r = .error errno) ∧ h' = h ∨ r = .ok () ∧ ∃ name,
      h'.stations = (h.update d fun s => { s with name := some name }).stations := by
  unfold bind at hrun
  rcases run_bind hrun with ⟨s, h₁, hs, h₂⟩ | ⟨errno, hs, rfl⟩
  · obtain ⟨rfl, -⟩ := run_station hs
    rw [run_get_bind] at h₂
    have hfails {errno : Errno} {r : Except Errno Unit}
        (hrun : (throw errno : HostCall Unit).run h₁ = (r, h')) :
        (∃ errno, r = .error errno) ∧ h' = h₁ := by
      injection hrun with hr hh
      exact ⟨⟨errno, hr.symm⟩, hh.symm⟩
    dsimp only at h₂
    split at h₂
    · split at h₂
      · exact .inl (hfails h₂)
      · injection h₂ with hr hh
        exact .inr ⟨hr.symm, _, by rw [← hh]⟩
    · split at h₂
      · exact .inl (hfails h₂)
      · injection h₂ with hr hh
        exact .inr ⟨hr.symm, _, by rw [← hh]⟩
    · split at h₂
      · exact .inl (hfails h₂)
      · split at h₂
        · exact .inl (hfails h₂)
        · injection h₂ with hr hh
          exact .inr ⟨hr.symm, _, by rw [← hh]⟩
  · exact .inl ⟨⟨errno, rfl⟩, (run_station hs).1⟩

/-- Connecting fails, or notes a peer, or puts a connection into a queue and notes that. -/
theorem stations_connect {e : Endpoint} {r : Except Errno Unit}
    (hrun : (connect d e).run h = (r, h')) :
    h'.stations = h.stations
      ∨ (∃ i peer, h'.stations
          = (h.update d (joined i peer)).stations)
      ∨ ∃ (i : Descriptor) (target : Station) (backlog : Int) (waiting : List Descriptor)
          (far : Station) (peer : Option Endpoint), h.stations[i]? = some target
          ∧ target.role = .listening backlog waiting ∧ far.role = .connected d
          ∧ h'.stations = ((h.enqueue i backlog waiting far).update d
            (joined h.stations.length peer)).stations := by
  unfold connect at hrun
  have hfails {errno : Errno} {h₁ : Host}
      (hrun : (throw errno : HostCall Unit).run h₁ = (r, h')) : h'.stations = h₁.stations := by
    injection hrun with _ hh
    rw [← hh]
  rcases run_bind hrun with ⟨s, h₁, hs, h₂⟩ | ⟨errno, hs, -⟩
  · obtain ⟨rfl, -⟩ := run_station hs
    split at h₂
    · rw [run_get_bind] at h₂
      rcases run_bind h₂ with ⟨i, h₃, hfind, h₄⟩ | ⟨errno, hfind, -⟩
      · injection hfind with _ hh
        subst hh
        rw [run_get_bind] at h₄
        split at h₄
        · exact .inl (hfails h₄)
        · rename_i target htarget
          split at h₄
          · exact .inl (hfails h₄)
          · split at h₄
            · unfold connectStream at h₄
              split at h₄
              · rename_i backlog waiting hlistens
                split at h₄
                · exact .inl (hfails h₄)
                · injection h₄ with _ hh
                  exact .inr (.inr ⟨i, target, backlog, waiting, _, _,
                    (station?_eq_some.mp htarget).1, hlistens, rfl, by rw [← hh]; rfl⟩)
              · exact .inl (hfails h₄)
            · unfold connectDatagram at h₄
              split at h₄
              · injection h₄ with _ hh
                exact .inr (.inl ⟨i, _, by rw [← hh]; rfl⟩)
              · exact .inl (hfails h₄)
      · injection hfind with _ hh
        exact .inl (by rw [← hh])
    · exact .inl (hfails h₂)
  · exact .inl (by rw [(run_station hs).1])

theorem orderly_bind {e : Endpoint} {r : Except Errno Unit} (hh : h.Orderly)
    (hrun : (bind d e).run h = (r, h')) : h'.Orderly := by
  rcases stations_bind hrun with ⟨-, rfl⟩ | ⟨-, name, hstations⟩
  · exact hh
  · have hnamed : (h.update d fun s => { s with name := some name }).Orderly :=
      orderly_update hh fun _ _ => List.Subset.refl _
    exact hnamed.congr hstations

theorem orderly_listen {r : Except Errno Unit} (hh : h.Orderly)
    (hrun : (listen d backlog).run h = (r, h')) : h'.Orderly := by
  unfold listen at hrun
  rcases run_bind hrun with ⟨s, h₁, hs, h₂⟩ | ⟨errno, hs, -⟩
  · obtain ⟨rfl, -⟩ := run_station hs
    split at h₂
    · injection h₂ with _ hh'
      exact hh' ▸ hh
    · injection h₂ with _ hh'
      exact hh' ▸ orderly_update hh fun _ _ => List.nil_subset _
  · exact (run_station hs).1 ▸ hh

theorem orderly_accept {r : Except Errno (Descriptor × Option Endpoint)} (hh : h.Orderly)
    (hrun : (accept d).run h = (r, h')) : h'.Orderly := by
  unfold accept at hrun
  rcases run_bind hrun with ⟨s, h₁, hs, h₂⟩ | ⟨errno, hs, -⟩
  · obtain ⟨rfl, hopen⟩ := run_station hs
    have hat := (station?_eq_some.mp (hopen s rfl)).1
    split at h₂
    · rename_i first rest hlistens
      injection h₂ with _ hh'
      -- the queue is the one that was looked at
      refine hh' ▸ orderly_update hh fun t ht => ?_
      obtain rfl := Option.some.inj (hat.symm.trans ht)
      unfold queue
      rw [hlistens]
      exact List.subset_cons_self _ _
    · injection h₂ with _ hh'
      exact hh' ▸ hh
  · exact (run_station hs).1 ▸ hh

theorem orderly_connect {e : Endpoint} {r : Except Errno Unit} (hh : h.Orderly)
    (hrun : (connect d e).run h = (r, h')) : h'.Orderly := by
  rcases stations_connect hrun with hsame | ⟨i, peer, hstations⟩
    | ⟨i, target, backlog, waiting, far, peer, htarget, hlistens, hfar, hstations⟩
  · exact hh.congr hsame
  · have hnoted : (h.update d (joined i peer)).Orderly :=
      orderly_update hh fun _ _ => List.nil_subset _
    exact hnoted.congr hstations
  · have hwaits : (h.enqueue i backlog waiting far).Orderly :=
      orderly_enqueue hh htarget (by unfold queue; rw [hlistens]) (by unfold queue; rw [hfar])
    have hnoted : ((h.enqueue i backlog waiting far).update d
        (joined h.stations.length peer)).Orderly :=
      orderly_update hwaits fun _ _ => List.nil_subset _
    exact hnoted.congr hstations

theorem orderly_set {setting : Setting} {r : Except Errno Unit} (hh : h.Orderly)
    (hrun : (set d setting).run h = (r, h')) : h'.Orderly := by
  unfold set at hrun
  rcases run_bind hrun with ⟨s, h₁, hs, h₂⟩ | ⟨errno, hs, -⟩
  · obtain ⟨rfl, -⟩ := run_station hs
    injection h₂ with _ hh'
    exact hh' ▸ orderly_update hh fun _ _ => by cases setting <;> exact List.Subset.refl _
  · exact (run_station hs).1 ▸ hh

/-- A pending error is used up, if anything. -/
theorem orderly_forgiven (hh : h.Orderly)
    (hforgiven : h' = h ∨ h' = h.update d fun s => { s with pending := none }) : h'.Orderly := by
  rcases hforgiven with rfl | rfl
  · exact hh
  · exact orderly_update hh fun _ _ => List.Subset.refl _

theorem orderly_takeError {r : Except Errno (Option Errno)} (hh : h.Orderly)
    (hrun : (takeError d).run h = (r, h')) : h'.Orderly := by
  unfold takeError at hrun
  rcases run_bind hrun with ⟨s, h₁, hs, h₂⟩ | ⟨errno, hs, -⟩
  · obtain ⟨rfl, -⟩ := run_station hs
    injection h₂ with _ hh'
    exact orderly_forgiven hh (.inr hh'.symm)
  · exact (run_station hs).1 ▸ hh

theorem orderly_send {octets : List UInt8} {flags : Nat} {passed : Option OpenFile}
    {r : Except Errno Nat} (hh : h.Orderly)
    (hrun : (send d octets flags passed).run h = (r, h')) : h'.Orderly := by
  rcases send_outcomes hrun with ⟨-, rfl⟩ | ⟨-, -, rfl⟩ | ⟨-, s, peer, -, -, rfl⟩
  · exact hh
  · exact orderly_update hh fun _ _ => List.nil_subset _
  · exact orderly_update hh fun _ _ => List.Subset.refl _

theorem orderly_receive {room : Nat} {r : Except Errno Incoming} (hh : h.Orderly)
    (hrun : (receive d room).run h = (r, h')) : h'.Orderly := by
  cases hs : h.station? d with
  | none =>
      unfold receive at hrun
      rcases run_bind hrun with ⟨s, h₁, hfound, -⟩ | ⟨errno, hfound, -⟩
      · cases hs.symm.trans ((run_station hfound).2 s rfl)
      · exact (run_station hfound).1 ▸ hh
  | some s =>
      cases hkind : s.kind with
      | stream =>
          rcases receive_stream hs hkind hrun with ⟨-, hnothing⟩ | ⟨-, -, rfl⟩
          · exact orderly_forgiven hh (nothing_cases hnothing)
          · exact orderly_update hh fun _ _ => List.Subset.refl _
      | datagram =>
          rcases receive_datagram hs hkind hrun with ⟨errno, -, hreport⟩ | ⟨-, hnothing⟩
            | ⟨message, rest, -, -, rfl⟩
          · exact orderly_forgiven hh (report_cases hreport)
          · exact orderly_forgiven hh (nothing_cases hnothing)
          · exact orderly_update hh fun _ _ => List.Subset.refl _

theorem orderly_ready {answer : Bool} (hh : h.Orderly) (hrun : ready d h = (answer, h')) :
    h'.Orderly := by
  unfold ready at hrun
  split at hrun
  · injection hrun with _ hh'
    exact hh' ▸ hh
  · injection hrun with _ hh'
    exact orderly_forgiven hh (.inr hh'.symm)

theorem orderly_shut (hh : h.Orderly) (how : Direction) (d : Descriptor) :
    (h.update d (shut how)).Orderly :=
  orderly_update hh fun _ _ => by cases how <;> exact List.Subset.refl _

theorem orderly_shutdown {how : Direction} {r : Except Errno Unit} (hh : h.Orderly)
    (hrun : (shutdown d how).run h = (r, h')) : h'.Orderly := by
  unfold shutdown at hrun
  rcases run_bind hrun with ⟨s, h₁, hs, h₂⟩ | ⟨errno, hs, -⟩
  · obtain ⟨rfl, -⟩ := run_station hs
    rw [run_modify_bind] at h₂
    split at h₂
    · injection h₂ with _ hh'
      exact hh' ▸ orderly_shut (orderly_shut hh how d) _ _
    · injection h₂ with _ hh'
      exact hh' ▸ orderly_shut hh how d
  · exact (run_station hs).1 ▸ hh

theorem orderly_hangUp (hh : h.Orderly) (lost : Bool) (d : Descriptor) :
    (h.update d (hangUp lost)).Orderly := orderly_update hh fun _ _ => List.Subset.refl _

theorem orderly_gone (hh : h.Orderly) (d : Descriptor) : (h.update d gone).Orderly :=
  orderly_update hh fun _ _ => List.Subset.refl _

theorem orderly_close {r : Except Errno Unit} (hh : h.Orderly)
    (hrun : (close d).run h = (r, h')) : h'.Orderly := by
  unfold close at hrun
  rcases run_bind hrun with ⟨s, h₁, hs, h₂⟩ | ⟨errno, hs, -⟩
  · obtain ⟨rfl, -⟩ := run_station hs
    rw [run_modify_bind] at h₂
    have hclosed := orderly_gone hh d
    split at h₂
    · injection h₂ with _ hh'
      exact hh' ▸ orderly_hangUp hclosed _ _
    · injection h₂ with _ hh'
      refine hh' ▸ List.foldlRecOn _ _ hclosed fun h hh far _ => ?_
      split
      · exact orderly_gone (orderly_hangUp hh _ _) far
      · exact orderly_gone hh far
    · injection h₂ with _ hh'
      exact hh' ▸ hclosed
  · exact (run_station hs).1 ▸ hh

theorem stations_unlink {path : List UInt8} {r : Except Errno Unit}
    (hrun : h.unlink path = (r, h')) : h'.stations = h.stations := by
  rcases unlink_cases hrun with ⟨-, rfl⟩ | ⟨-, place, -, rfl⟩
  · rfl
  · rfl

theorem orderly_duplicate {file : OpenFile} {r : Except Errno OpenFile} (hh : h.Orderly)
    (hrun : (duplicate file).run h = (r, h')) : h'.Orderly := by
  unfold duplicate at hrun
  rw [run_get_bind] at hrun
  split at hrun
  · injection hrun with _ hh'
    exact hh' ▸ hh
  · injection hrun with _ hh'
    exact hh' ▸ hh

/-- **Whatever waits is there**, before and after each call. -/
theorem orderly_step (hh : h.Orderly) (hstep : Kernel.Step h h') : h'.Orderly := by
  cases hstep with
  | lookUp hrun =>
      injection hrun with _ hh'
      exact hh' ▸ hh
  | create hrun =>
      injection hrun with _ hh'
      exact hh' ▸ orderly_extend hh rfl
  | bind hrun => exact orderly_bind hh hrun
  | listen hrun => exact orderly_listen hh hrun
  | accept hrun => exact orderly_accept hh hrun
  | connect hrun => exact orderly_connect hh hrun
  | awaitWritable hrun =>
      injection hrun with _ hh'
      exact hh' ▸ hh
  | set hrun => exact orderly_set hh hrun
  | takeError hrun => exact orderly_takeError hh hrun
  | send hrun => exact orderly_send hh hrun
  | receive hrun => exact orderly_receive hh hrun
  | nextLength hrun => exact orderly_forgiven hh (nextLength_cases hrun)
  | ready hrun => exact orderly_ready hh hrun
  | shutdown hrun => exact orderly_shutdown hh hrun
  | close hrun => exact orderly_close hh hrun
  | unlink hrun => exact hh.congr (stations_unlink hrun)
  | duplicate hrun => exact orderly_duplicate hh hrun
  | closeFile hrun => exact hrun ▸ hh

theorem orderly_empty : empty.Orderly := by
  rintro d ⟨e, s, hs, -⟩
  cases hs

theorem orderly_reaches (hcalls : Relation.ReflTransGen Kernel.Step empty h) : h.Orderly := by
  induction hcalls with
  | refl => exact orderly_empty
  | tail _ hstep ih => exact orderly_step ih hstep

end Host

end PacedNet
