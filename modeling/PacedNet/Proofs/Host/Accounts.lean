import PacedNet.Proofs.Host.Waiting
import PacedNet.Proofs.Socket.Accounts

/-!
# The accounts of a host

The descriptors that programs have on a host are those of its open sockets, but for the connections
that still wait at a listening socket, which nobody has a descriptor of yet. On a host whose queues
are in order, as they always are (`orderly_reaches`), a call changes these, and the files, as a
kernel's calls are to (`accounts_kept`).
-/

namespace PacedNet.Host

variable {h h' : Host} {d e i : Descriptor} {s target far : Station} {f : Station → Station}
  {backlog : Int} {waiting : List Descriptor} {place : Place} {path : List UInt8}

/-- The sockets that programs have. -/
def descriptors (h : Host) : Set Descriptor := {d | (∃ s, h.station? d = some s) ∧ ¬ h.Awaits d}

/-- The places where files are. -/
def files (h : Host) : Set Place :=
  {place | isDirectory place = false ∧ ∃ node, (place, node) ∈ h.nodes}

def accounts : Kernel.Accounts Host Place where
  valid := Orderly
  descriptors := descriptors
  files := files
  locate h path := (h.locate path).toOption
  owns h d place := (place, .station d) ∈ h.nodes
  idle d h := ∃ s, h.stations[d]? = some s ∧ s.role = .idle

/-! ## Descriptors -/

theorem mem_descriptors : d ∈ h.descriptors ↔
    (∃ s, h.stations[d]? = some s ∧ s.isOpen = true) ∧ ¬ h.Awaits d := by
  unfold descriptors
  simp only [Set.mem_ofPred_eq, station?_eq_some]

/-- They are read off the sockets. -/
theorem descriptors_congr (hstations : h'.stations = h.stations) :
    h'.descriptors = h.descriptors := by
  unfold descriptors Awaits station?
  rw [hstations]

/-- A change that opens and closes nothing, and lets nobody wait. -/
theorem descriptors_update
    (hf : ∀ s, h.stations[d]? = some s → (f s).isOpen = s.isOpen ∧ queue (f s) = queue s) :
    (h.update d f).descriptors = h.descriptors := by
  ext e
  rw [mem_descriptors, mem_descriptors, awaits_update fun s hs => (hf s hs).2, getElem?_update]
  refine and_congr_left fun _ => ?_
  split_ifs with hi
  · subst hi
    cases hs : h.stations[d]? with
    | none => simp
    | some s => simp [(hf s hs).1]
  · rfl

theorem descriptors_close (h : Host) (d : Descriptor) :
    (h.update d gone).descriptors = h.descriptors \ {d} := by
  ext e
  rw [Set.mem_sdiff, Set.mem_singleton_iff, mem_descriptors, mem_descriptors, awaits_gone,
    getElem?_update]
  split_ifs with hi
  · subst hi
    simp [gone]
  · simp [Ne.symm hi]

/-- A connection that nobody has a descriptor of may be closed. -/
theorem descriptors_refuse (hwaits : h.Awaits d) :
    (h.update d gone).descriptors = h.descriptors := by
  rw [descriptors_close]
  exact Set.sdiff_singleton_eq_self fun hd => hd.2 hwaits

theorem not_mem_descriptors (h : Host) : h.stations.length ∉ h.descriptors := by
  rw [mem_descriptors]
  rintro ⟨⟨s, hs, -⟩, -⟩
  exact absurd (List.getElem?_eq_some_iff.mp hs).1 (lt_irrefl _)

/-- A new socket is one that programs have. -/
theorem descriptors_extend (hh : h.Orderly) (hqueue : queue s = []) (hopen : s.isOpen = true) :
    (h.extend s).descriptors = insert h.stations.length h.descriptors := by
  have hbeyond : ¬ h.Awaits h.stations.length := fun hd => absurd (hh _ hd) (lt_irrefl _)
  ext e
  rw [Set.mem_insert_iff, mem_descriptors, mem_descriptors, awaits_extend hqueue]
  simp only [getElem?_extend]
  constructor
  · rintro ⟨⟨t, ht | ⟨he, -⟩, hisOpen⟩, hnot⟩
    · exact .inr ⟨⟨t, ht, hisOpen⟩, hnot⟩
    · exact .inl he
  · rintro (rfl | ⟨⟨t, ht, hisOpen⟩, hnot⟩)
    · exact ⟨⟨s, .inr ⟨rfl, rfl⟩, hopen⟩, hbeyond⟩
    · exact ⟨⟨t, .inl ht, hisOpen⟩, hnot⟩

/-- Of a connection that waits nobody has a descriptor. -/
theorem descriptors_enqueue (htarget : h.stations[i]? = some target)
    (hqueue : queue target = waiting) (hfar : queue far = []) :
    (h.enqueue i backlog waiting far).descriptors = h.descriptors := by
  ext d
  rw [mem_descriptors, mem_descriptors, awaits_enqueue htarget hqueue hfar, not_or]
  simp only [getElem?_enqueue htarget]
  constructor
  · rintro ⟨⟨t, ⟨rfl, rfl⟩ | ⟨-, ht | ⟨hd, -⟩⟩, hisOpen⟩, hnot, hne⟩
    · exact ⟨⟨target, htarget, hisOpen⟩, hnot⟩
    · exact ⟨⟨t, ht, hisOpen⟩, hnot⟩
    · -- the new one is open, but it waits
      exact absurd hd hne
  · rintro ⟨⟨t, ht, hisOpen⟩, hnot⟩
    have hd : d < h.stations.length := (List.getElem?_eq_some_iff.mp ht).1
    refine ⟨?_, hnot, hd.ne⟩
    by_cases hdi : d = i
    · subst hdi
      obtain rfl := Option.some.inj (htarget.symm.trans ht)
      exact ⟨_, .inl ⟨rfl, rfl⟩, hisOpen⟩
    · exact ⟨t, .inr ⟨hdi, .inl ht⟩, hisOpen⟩

/-! ## Calls -/

theorem locate_ok (hlocate : accounts.locate h path = some place) : h.locate path = .ok place := by
  change (h.locate path).toOption = some place at hlocate
  cases hq : h.locate path with
  | error errno =>
      rw [hq] at hlocate
      cases hlocate
  | ok q =>
      rw [hq] at hlocate
      rw [Option.some.inj hlocate]

theorem mem_files {place : Place} : place ∈ accounts.files h ↔
    isDirectory place = false ∧ ∃ node, (place, node) ∈ h.nodes := Iff.rfl

/-- What stays of the files is led to as before. -/
theorem follows_of_nodes (hvalid : h'.Orderly)
    (hnodes : ∀ {q node}, (q, node) ∈ h.nodes → q ∈ accounts.files h' → (q, node) ∈ h'.nodes) :
    accounts.Follows h h' where
  valid := hvalid
  locate := by
    rintro path place hpath - ⟨-, node, hnode⟩
    have hholds : h'.holds place = true := holds_iff.mpr (.inr ⟨node, hnode⟩)
    show (h'.locate path).toOption = some place
    rw [locate_of_holds (locate_ok hpath) hholds]
    rfl
  owns howns _ hafter := hnodes howns hafter

theorem files_congr (hnodes : h'.nodes = h.nodes) : accounts.files h' = accounts.files h := by
  show h'.files = h.files
  unfold files
  rw [hnodes]

theorem stays_of_nodes (hvalid : h'.Orderly) (hnodes : h'.nodes = h.nodes) :
    accounts.Stays h h' :=
  ⟨follows_of_nodes hvalid fun hnode _ => hnodes ▸ hnode, files_congr hnodes⟩

/-- A call that leaves the files alone. -/
theorem stays_of_keeps {α : Type} {call : HostCall α} {r : Except Errno α} (hh : h.Orderly)
    (hstep : Kernel.Step h h') (hkeeps : KeepsNodes call) (hrun : call.run h = (r, h')) :
    accounts.Stays h h' := by
  have hnodes := hkeeps h
  rw [hrun] at hnodes
  exact stays_of_nodes (orderly_step hh hstep) hnodes

/-- A call that leaves the descriptors and the files alone. -/
theorem same_of_step (hh : h.Orderly) (hstep : Kernel.Step h h')
    (hdescriptors : h'.descriptors = h.descriptors) (hnodes : h'.nodes = h.nodes) :
    accounts.Same h h' :=
  ⟨stays_of_nodes (orderly_step hh hstep) hnodes, hdescriptors⟩

theorem queue_of_idle (hidle : accounts.idle d h) (hs : h.stations[d]? = some s) :
    queue s = [] := by
  obtain ⟨t, ht, hrole⟩ := hidle
  obtain rfl := Option.some.inj (hs.symm.trans ht)
  unfold queue
  rw [hrole]

theorem idle_update (hidle : accounts.idle d h) (hf : ∀ s, (f s).role = s.role) :
    accounts.idle d (h.update e f) := by
  obtain ⟨s, hs, hrole⟩ := hidle
  show ∃ t, (h.update e f).stations[d]? = some t ∧ t.role = .idle
  rw [getElem?_update]
  split_ifs
  · exact ⟨f s, by rw [hs]; rfl, (hf s).trans hrole⟩
  · exact ⟨s, hs, hrole⟩

theorem opens_create (hh : h.Orderly) {family : Family} {kind : Kind}
    {r : Except Errno Descriptor} (hrun : Kernel.create family kind h = (r, h')) :
    ∃ d, r = .ok d ∧ accounts.Opens h h' d := by
  have hvalid := orderly_step hh (.create hrun)
  injection hrun with hr hh'
  subst hr hh'
  have hlast : (h.extend (fresh family kind)).stations[h.stations.length]?
      = some (fresh family kind) := getElem?_extend.mpr (.inr ⟨rfl, rfl⟩)
  exact ⟨_, rfl, stays_of_nodes hvalid rfl, not_mem_descriptors h, descriptors_extend hh rfl rfl,
    _, hlast, rfl⟩

theorem same_set {setting : Setting} {r : Except Errno Unit} (hh : h.Orderly)
    (hidle : accounts.idle d h) (hrun : (set d setting).run h = (r, h')) :
    accounts.Same h h' ∧ accounts.idle d h' := by
  have hstep : Kernel.Step h h' := .set hrun
  unfold set at hrun
  rcases run_bind hrun with ⟨s, h₁, hs, h₂⟩ | ⟨errno, hs, -⟩
  · obtain ⟨rfl, -⟩ := run_station hs
    injection h₂ with _ hh'
    subst hh'
    refine ⟨same_of_step hh hstep (descriptors_update fun s _ => ?_) rfl, idle_update hidle ?_⟩
    · cases setting <;> exact ⟨rfl, rfl⟩
    · intro s
      cases setting <;> rfl
  · obtain ⟨rfl, -⟩ := run_station hs
    exact ⟨.refl hh, hidle⟩

theorem same_takeError {r : Except Errno (Option Errno)} (hh : h.Orderly)
    (hrun : (takeError d).run h = (r, h')) : accounts.Same h h' := by
  have hstep : Kernel.Step h h' := .takeError hrun
  unfold takeError at hrun
  rcases run_bind hrun with ⟨s, h₁, hs, h₂⟩ | ⟨errno, hs, -⟩
  · obtain ⟨rfl, -⟩ := run_station hs
    injection h₂ with _ hh'
    subst hh'
    exact same_of_step hh hstep (descriptors_update fun s _ => ⟨rfl, rfl⟩) rfl
  · obtain ⟨rfl, -⟩ := run_station hs
    exact .refl hh

/-- A socket that listens has an empty queue at first. -/
theorem descriptors_listen {r : Except Errno Unit} (hidle : accounts.idle d h)
    (hrun : (listen d backlog).run h = (r, h')) : h'.descriptors = h.descriptors := by
  unfold listen at hrun
  rcases run_bind hrun with ⟨s, h₁, hs, h₂⟩ | ⟨errno, hs, -⟩
  · obtain ⟨rfl, -⟩ := run_station hs
    split at h₂
    · injection h₂ with _ hh'
      rw [hh']
    · injection h₂ with _ hh'
      subst hh'
      exact descriptors_update fun s hs => ⟨rfl, (queue_of_idle hidle hs).symm⟩
  · rw [(run_station hs).1]

/-- A file more. -/
theorem files_cons {node : FileNode} (hfile : isDirectory place = false)
    (hnodes : h'.nodes = (place, node) :: h.nodes) : h'.files = insert place h.files := by
  ext q
  unfold files
  simp only [hnodes, Set.mem_insert_iff, Set.mem_ofPred_eq, List.mem_cons, Prod.mk.injEq,
    exists_or, exists_and_left, exists_eq, and_true]
  constructor
  · rintro ⟨hq, rfl | hnode⟩
    · exact .inl rfl
    · exact .inr ⟨hq, hnode⟩
  · rintro (rfl | ⟨hq, hnode⟩)
    · exact ⟨hfile, .inl rfl⟩
    · exact ⟨hq, .inr hnode⟩

/-- The file that a bind makes lies where its path leads. -/
theorem makes_bind (hvalid : h'.Orderly) (hdescriptors : h'.descriptors = h.descriptors)
    (hvacant : h.vacancy path = .ok place) (hnodes : h'.nodes = (place, .station d) :: h.nodes) :
    accounts.Makes h h' d path place := by
  obtain ⟨hfile, hmissing, hthere⟩ := vacancy_spec hvacant
  have hnew : (place, .station d) ∈ h'.nodes := hnodes ▸ List.mem_cons_self
  refine ⟨follows_of_nodes hvalid fun hnode _ => hnodes ▸ List.mem_cons_of_mem _ hnode,
    hdescriptors, ?_, files_cons hfile hnodes, ?_, hnew⟩
  · rintro ⟨-, other, hother⟩
    rw [holds_iff.mpr (.inr ⟨other, hother⟩)] at hmissing
    cases hmissing
  · show (h'.locate path).toOption = some place
    rw [hthere h' (holds_iff.mpr (.inr ⟨_, hnew⟩))]
    rfl

/-- What a socket is bound to is known to the host by the path that the socket remembers. -/
theorem fileAt_of_plain {e : Endpoint} (hplain : e.IsPlain) :
    (∃ path, normal e = .unix (.path path) ∧ Method.fileAt none e = some path)
      ∨ (∀ path, normal e ≠ .unix (.path path)) ∧ Method.fileAt none e = none := by
  cases e with
  | unix a =>
      cases a with
      | path octets =>
          cases octets with
          | nil =>
              obtain ⟨name, hname⟩ := normal_empty
              exact .inr ⟨fun path hpath => absurd (hname.symm.trans hpath) (by simp), rfl⟩
          | cons b rest =>
              have hne : (UnixAddress.path (b :: rest)).octets ≠ [] := List.cons_ne_nil b rest
              exact .inl ⟨b :: rest, normal_named (.inr ⟨hne, hplain _ rfl⟩), rfl⟩
      | «abstract» name =>
          have hname := normal_named (a := .abstract name) (.inl rfl)
          exact .inr ⟨fun path hpath => absurd (hname.symm.trans hpath) (by simp), rfl⟩
  | inet4 a => exact .inr ⟨fun path hpath => absurd hpath (by simp [normal]), rfl⟩
  | inet6 a => exact .inr ⟨fun path hpath => absurd hpath (by simp [normal]), rfl⟩
  | host name port => exact .inr ⟨fun path hpath => absurd hpath (by simp [normal]), rfl⟩

/-- **Binding** opens and closes nothing, and makes a file where it is given a path. -/
theorem bind_accounts {e : Endpoint} (hh : h.Orderly) (hplain : e.IsPlain)
    (hrun : (bind d e).run h = (.ok (), h')) :
    (accounts.idle d h → accounts.idle d h')
      ∧ (Method.fileAt none e = none ∧ accounts.Same h h'
        ∨ ∃ path place, Method.fileAt none e = some path ∧ accounts.Makes h h' d path place) := by
  have hstep : Kernel.Step h h' := .bind hrun
  rcases stations_bind hrun with ⟨⟨errno, hno⟩, -⟩ | ⟨-, name, hstations⟩
  · cases hno
  · have hdescriptors : h'.descriptors = h.descriptors :=
      (descriptors_congr hstations).trans (descriptors_update fun s _ => ⟨rfl, rfl⟩)
    refine ⟨fun hidle => ?_, ?_⟩
    · have hnamed : ∃ s, (h.update d fun s => { s with name := some name }).stations[d]? = some s
          ∧ s.role = .idle := idle_update hidle fun _ => rfl
      rwa [← hstations] at hnamed
    · rcases nodes_bind hrun with ⟨hnodes, ⟨errno, hno⟩ | hnopath⟩
        | ⟨path, place, hnormal, -, hvacant, hnodes⟩
      · cases hno
      · rcases fileAt_of_plain hplain with ⟨path, hpath, -⟩ | ⟨-, hnone⟩
        · exact absurd hpath (hnopath path)
        · exact .inl ⟨hnone, same_of_step hh hstep hdescriptors hnodes⟩
      · rcases fileAt_of_plain hplain with ⟨path', hpath, hat⟩ | ⟨hno, -⟩
        · have hboth : Endpoint.unix (.path path') = .unix (.path path) :=
            hpath.symm.trans hnormal
          injection hboth with hboth
          injection hboth with hsame
          subst hsame
          exact .inr ⟨path', place, hat,
            makes_bind (orderly_step hh hstep) hdescriptors hvacant hnodes⟩
        · exact absurd hnormal (hno path)

theorem descriptors_connect {e : Endpoint} {r : Except Errno Unit} (hidle : accounts.idle d h)
    (hrun : (connect d e).run h = (r, h')) : h'.descriptors = h.descriptors := by
  rcases stations_connect hrun with hsame | ⟨i, peer, hstations⟩
    | ⟨i, target, backlog, waiting, far, peer, htarget, hlistens, hfar, hstations⟩
  · exact descriptors_congr hsame
  · exact (descriptors_congr hstations).trans
      (descriptors_update fun s hs => ⟨rfl, (queue_of_idle hidle hs).symm⟩)
  · have hne : d ≠ i := by
      rintro rfl
      obtain ⟨s, hs, hrole⟩ := hidle
      obtain rfl := Option.some.inj (htarget.symm.trans hs)
      cases hlistens.symm.trans hrole
    have hnone : queue far = [] := by
      unfold queue
      rw [hfar]
    -- the queue that has grown is not the socket's own
    have hidle' : ∀ s, (h.enqueue i backlog waiting far).stations[d]? = some s →
        queue s = [] := by
      intro s hs
      rcases (getElem?_enqueue htarget).mp hs with ⟨hd, -⟩ | ⟨-, hs | ⟨-, rfl⟩⟩
      · exact absurd hd hne
      · exact queue_of_idle hidle hs
      · exact hnone
    calc h'.descriptors
      _ = ((h.enqueue i backlog waiting far).update d
            (joined h.stations.length peer)).descriptors := descriptors_congr hstations
      _ = (h.enqueue i backlog waiting far).descriptors :=
          descriptors_update fun s hs => ⟨rfl, (hidle' s hs).symm⟩
      _ = h.descriptors := descriptors_enqueue htarget (by unfold queue; rw [hlistens]) hnone

theorem descriptors_hangUp (h : Host) (lost : Bool) (d : Descriptor) :
    (h.update d (hangUp lost)).descriptors = h.descriptors :=
  descriptors_update fun _ _ => ⟨rfl, rfl⟩

/-- What is done to one waiting connection after the other, where those that wait still do. -/
theorem descriptors_foldl {f : Host → Descriptor → Host}
    (hf : ∀ h d, h.Awaits d →
      (f h d).descriptors = h.descriptors ∧ ∀ e, h.Awaits e → (f h d).Awaits e)
    {ds : List Descriptor} (hds : ∀ e ∈ ds, h.Awaits e) :
    (ds.foldl f h).descriptors = h.descriptors := by
  induction ds generalizing h with
  | nil => rfl
  | cons d ds ih =>
      obtain ⟨hsame, hkeeps⟩ := hf h d (hds d List.mem_cons_self)
      exact (ih fun e he => hkeeps e (hds e (List.mem_cons_of_mem _ he))).trans hsame

/-- A connection that waits is closed, and its other end told before if there is one. -/
theorem descriptors_gone (hwaits : h.Awaits d)
    (htold : h' = h ∨ ∃ near, h' = h.update near (hangUp true)) :
    (h'.update d gone).descriptors = h.descriptors
      ∧ ∀ e, h.Awaits e → (h'.update d gone).Awaits e := by
  rcases htold with rfl | ⟨near, rfl⟩
  · exact ⟨descriptors_refuse hwaits, fun e he => awaits_gone.mpr he⟩
  · have hstill (e : Descriptor) : (h.update near (hangUp true)).Awaits e ↔ h.Awaits e :=
      awaits_update fun _ _ => rfl
    exact ⟨(descriptors_refuse ((hstill d).mpr hwaits)).trans (descriptors_hangUp h true near),
      fun e he => awaits_gone.mpr ((hstill e).mpr he)⟩

/-- **Closing** closes one descriptor. Connections that wait at the socket have none. -/
theorem closes_close {r : Except Errno Unit} (hh : h.Orderly)
    (hrun : (close d).run h = (r, h')) : accounts.Closes h h' d := by
  refine ⟨stays_of_keeps hh (.close hrun) keepsNodes_close hrun, ?_⟩
  show h'.descriptors = h.descriptors \ {d}
  unfold close at hrun
  rcases run_bind hrun with ⟨s, h₁, hs, h₂⟩ | ⟨errno, hs, -⟩
  · obtain ⟨rfl, hopen⟩ := run_station hs
    have hat := (station?_eq_some.mp (hopen s rfl)).1
    rw [run_modify_bind] at h₂
    rw [← descriptors_close]
    split at h₂
    · injection h₂ with _ hh'
      exact hh' ▸ descriptors_hangUp _ _ _
    · rename_i backlog waiting _ hlistens
      injection h₂ with _ hh'
      refine hh' ▸ descriptors_foldl (fun h far hwaits => descriptors_gone hwaits ?_)
        fun e he => awaits_gone.mpr ⟨d, s, hat, ?_⟩
      · split
        · exact .inr ⟨_, rfl⟩
        · exact .inl rfl
      · unfold queue
        rwa [hlistens]
    · injection h₂ with _ hh'
      exact hh' ▸ rfl
  · -- nothing was open there
    have hgone := run_station_error hs
    obtain ⟨rfl, -⟩ := run_station hs
    refine (Set.sdiff_singleton_eq_self ?_).symm
    rintro ⟨⟨s, hopen⟩, -⟩
    cases hgone.symm.trans hopen

/-- **Removing** a file takes it away, or changes nothing. -/
theorem unlink_accounts {r : Except Errno Unit} (hh : h.Orderly)
    (hrun : h.unlink path = (r, h')) :
    (∃ errno, r = .error errno) ∧ accounts.Same h h'
      ∨ r = .ok () ∧ ∃ place, accounts.locate h path = some place
        ∧ accounts.Removes h h' place := by
  have hvalid := orderly_step hh (.unlink hrun)
  rcases unlink_cases hrun with ⟨hno, rfl⟩ | ⟨hok, place, hlocate, rfl⟩
  · exact .inl ⟨hno, .refl hh⟩
  · refine .inr ⟨hok, place, ?_, ⟨follows_of_nodes hvalid fun hnode hafter => ?_, ?_⟩,
      descriptors_congr rfl⟩
    · show (h.locate path).toOption = some place
      rw [hlocate]
      rfl
    · obtain ⟨-, node, hnode'⟩ := hafter
      exact List.mem_filter.mpr ⟨hnode, (List.mem_filter.mp hnode').2⟩
    · ext q
      simp only [mem_files, Set.mem_sdiff, Set.mem_singleton_iff, List.mem_filter,
        decide_eq_true_eq, exists_and_right, and_assoc]

/-- **The host's calls change what is open and what is there as a kernel's are to.** -/
theorem accounts_kept : accounts.Kept where
  lookUp hh hrun := by
    injection hrun with _ hh'
    exact hh' ▸ ⟨.refl hh, fun _ => id⟩
  create hh hrun := .inr (opens_create hh hrun)
  set := same_set
  refuse hh hrun := by
    rcases stations_bind hrun with ⟨-, rfl⟩ | ⟨hno, -⟩
    · exact .refl hh
    · cases hno
  bind := bind_accounts
  listen hh hrun :=
    ⟨stays_of_keeps hh (.listen hrun) keepsNodes_listen hrun,
      fun hidle => descriptors_listen hidle hrun⟩
  accept hh hrun := stays_of_keeps hh (.accept hrun) keepsNodes_accept hrun
  connect hh hrun :=
    ⟨stays_of_keeps hh (.connect hrun) keepsNodes_connect hrun,
      fun hidle => descriptors_connect hidle hrun⟩
  awaitWritable hh hrun := by
    injection hrun with _ hh'
    exact hh' ▸ .refl hh
  takeError := same_takeError
  shutdown hh hrun := stays_of_keeps hh (.shutdown hrun) keepsNodes_shutdown hrun
  duplicate hh hrun := stays_of_keeps hh (.duplicate hrun) (keepsNodes_duplicate _) hrun
  close := closes_close
  unlink := unlink_accounts

end PacedNet.Host
