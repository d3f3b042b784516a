import PacedNet.Proofs.Socket.Methods
import PacedNet.Socket.Options
import Mathlib.Data.Set.Insert

/-!
# Descriptors and files accounted for

A kernel keeps account of the descriptors that are open and of the files that are there
(`Kernel.Accounts`). A call opens or closes one descriptor, makes or removes one file, or does
neither, and a kernel may refuse any of it (`Kernel.Accounts.Kept`). A socket that is all that a
program has opened and made since some time (`Machine.Bears`) takes that away again when it is given
up: what is open is then what was, and so is what is there, unless the kernel refuses to remove the
socket's file (`Machine.Bears.restored`).
-/

namespace PacedNet

variable {K P : Type}

/-- A path that may be bound to: it holds no zero, at which the system would end it. -/
def Endpoint.IsPlain (e : Endpoint) : Prop := ∀ path, e = .unix (.path path) → 0 ∉ path

/-- What is found for a plain endpoint is plain. -/
theorem Endpoint.IsPlain.found {e found : Endpoint} {family : Family} (hplain : e.IsPlain)
    (hfound : e.Finds family found) : found.IsPlain := by
  rintro path rfl
  exact hplain path hfound.eq_unix

/-- The file of a socket that is bound to an endpoint is at the path that was asked for. -/
theorem Method.eq_of_fileAt {e found : Endpoint} {family : Family} {path : List UInt8}
    (hfound : e.Finds family found) (h : fileAt none found = some path) :
    e = .unix (.path path) := by
  cases found with
  | unix a =>
      rw [hfound.eq_unix]
      cases a with
      | path octets =>
          cases octets with
          | nil => exact absurd h (by simp [fileAt, UnixAddress.filePath?])
          | cons b rest =>
              injection h with h
              rw [h]
      | «abstract» name => exact absurd h (by simp [fileAt, UnixAddress.filePath?])
  | _ => exact absurd h (by simp [fileAt])

/-- What is open and what is there, as it is read off a kernel's states. -/
structure Kernel.Accounts (K P : Type) where
  /-- The states that the kernel comes to. -/
  valid : K → Prop
  descriptors : K → Set Descriptor
  /-- The places where there are files. -/
  files : K → Set P
  /-- Where a path leads. -/
  locate : K → List UInt8 → Option P
  /-- The file at a place was made by a bind of the descriptor. -/
  owns : K → Descriptor → P → Prop
  /-- A socket that has neither listened nor been connected. -/
  idle : Descriptor → K → Prop

namespace Kernel.Accounts

variable (a : Accounts K P) (k k' : K)

/-- Files that stay are led to as before, and are whose they were. -/
structure Follows : Prop where
  valid : a.valid k'
  locate : ∀ {path place}, a.locate k path = some place → place ∈ a.files k →
    place ∈ a.files k' → a.locate k' path = some place
  owns : ∀ {d place}, a.owns k d place → place ∈ a.files k → place ∈ a.files k' →
    a.owns k' d place

/-- No file is made or removed. -/
structure Stays : Prop extends a.Follows k k' where
  files : a.files k' = a.files k

/-- Nothing is opened, closed, made or removed. -/
structure Same : Prop extends a.Stays k k' where
  descriptors : a.descriptors k' = a.descriptors k

/-- A descriptor is opened that was not open. -/
structure Opens (d : Descriptor) : Prop extends a.Stays k k' where
  fresh : d ∉ a.descriptors k
  descriptors : a.descriptors k' = insert d (a.descriptors k)
  idle : a.idle d k'

structure Closes (d : Descriptor) : Prop extends a.Stays k k' where
  descriptors : a.descriptors k' = a.descriptors k \ {d}

/-- A descriptor makes a file where there was none, and the path leads to it. -/
structure Makes (d : Descriptor) (path : List UInt8) (place : P) : Prop
    extends a.Follows k k' where
  descriptors : a.descriptors k' = a.descriptors k
  fresh : place ∉ a.files k
  files : a.files k' = insert place (a.files k)
  leads : a.locate k' path = some place
  owned : a.owns k' d place

/-- The file at a place goes, and no other. -/
structure Loses (place : P) : Prop extends a.Follows k k' where
  files : a.files k' = a.files k \ {place}

structure Removes (place : P) : Prop extends a.Loses k k' place where
  descriptors : a.descriptors k' = a.descriptors k

/-- What each call does to the accounts. Closing closes whatever it answers. Only a bind that
succeeds makes a file, at the path that it is given, and only an unlink that succeeds removes one,
at the place where its path leads. -/
structure Kept [Kernel K] : Prop where
  lookUp : ∀ {name port answer k k'}, a.valid k → Kernel.lookUp name port k = (answer, k') →
    a.Same k k' ∧ ∀ d, a.idle d k → a.idle d k'
  create : ∀ {family kind answer k k'}, a.valid k → Kernel.create family kind k = (answer, k') →
    (∃ errno, answer = .error errno) ∧ a.Same k k' ∨ ∃ d, answer = .ok d ∧ a.Opens k k' d
  set : ∀ {d setting answer k k'}, a.valid k → a.idle d k →
    Kernel.set d setting k = (answer, k') → a.Same k k' ∧ a.idle d k'
  refuse : ∀ {d e errno k k'}, a.valid k → Kernel.bind d e k = (.error errno, k') → a.Same k k'
  bind : ∀ {d e k k'}, a.valid k → e.IsPlain → Kernel.bind d e k = (.ok (), k') →
    (a.idle d k → a.idle d k') ∧ (Method.fileAt none e = none ∧ a.Same k k'
      ∨ ∃ path place, Method.fileAt none e = some path ∧ a.Makes k k' d path place)
  listen : ∀ {d backlog answer k k'}, a.valid k → Kernel.listen d backlog k = (answer, k') →
    a.Stays k k' ∧ (a.idle d k → a.descriptors k' = a.descriptors k)
  accept : ∀ {d answer k k'}, a.valid k → Kernel.accept d k = (answer, k') → a.Stays k k'
  connect : ∀ {d e answer k k'}, a.valid k → Kernel.connect d e k = (answer, k') →
    a.Stays k k' ∧ (a.idle d k → a.descriptors k' = a.descriptors k)
  awaitWritable : ∀ {d answer k k'}, a.valid k →
    Kernel.awaitWritable d k = (answer, k') → a.Same k k'
  takeError : ∀ {d answer k k'}, a.valid k → Kernel.takeError d k = (answer, k') → a.Same k k'
  shutdown : ∀ {d how answer k k'}, a.valid k → Kernel.shutdown d how k = (answer, k') →
    a.Stays k k'
  duplicate : ∀ {file answer k k'}, a.valid k → Kernel.duplicate file k = (answer, k') →
    a.Stays k k'
  close : ∀ {d answer k k'}, a.valid k → Kernel.close d k = (answer, k') → a.Closes k k' d
  unlink : ∀ {path answer k k'}, a.valid k → Kernel.unlink path k = (answer, k') →
    (∃ errno, answer = .error errno) ∧ a.Same k k'
      ∨ answer = .ok () ∧ ∃ place, a.locate k path = some place ∧ a.Removes k k' place

variable {a k k'}

theorem Follows.trans {k'' : K} (h : a.Follows k k') (h' : a.Follows k' k'')
    (hbetween : ∀ place ∈ a.files k, place ∈ a.files k'' → place ∈ a.files k') :
    a.Follows k k'' := by
  refine ⟨h'.valid, fun hpath hplace hafter => ?_, fun howns hplace hafter => ?_⟩
  · have hthere := hbetween _ hplace hafter
    exact h'.locate (h.locate hpath hplace hthere) hthere hafter
  · have hthere := hbetween _ hplace hafter
    exact h'.owns (h.owns howns hplace hthere) hthere hafter

theorem Stays.refl (hk : a.valid k) : a.Stays k k :=
  ⟨⟨hk, fun h _ _ => h, fun h _ _ => h⟩, rfl⟩

theorem Stays.trans {k'' : K} (h : a.Stays k k') (h' : a.Stays k' k'') : a.Stays k k'' :=
  ⟨h.toFollows.trans h'.toFollows fun _ hplace _ => h.files ▸ hplace, h'.files.trans h.files⟩

theorem Loses.stays {k'' : K} {place : P} (h : a.Loses k k' place) (h' : a.Stays k' k'') :
    a.Loses k k'' place :=
  ⟨h.toFollows.trans h'.toFollows fun _ _ hafter => h'.files ▸ hafter, h'.files.trans h.files⟩

theorem Same.refl (hk : a.valid k) : a.Same k k := ⟨.refl hk, rfl⟩

theorem Same.trans {k'' : K} (h : a.Same k k') (h' : a.Same k' k'') : a.Same k k'' :=
  ⟨h.toStays.trans h'.toStays, h'.descriptors.trans h.descriptors⟩

theorem Same.makes {k'' : K} {d : Descriptor} {path : List UInt8} {place : P} (h : a.Same k k')
    (h' : a.Makes k' k'' d path place) : a.Makes k k'' d path place where
  toFollows := h.toFollows.trans h'.toFollows fun _ hplace _ => h.files ▸ hplace
  descriptors := h'.descriptors.trans h.descriptors
  fresh := h.files ▸ h'.fresh
  files := by rw [h'.files, h.files]
  leads := h'.leads
  owned := h'.owned

section

variable [Kernel K]

/-- Looking an endpoint up changes nothing that is accounted for. -/
theorem Kept.looksUp (ha : a.Kept) (hk : a.valid k) {e : Endpoint} (h : e.LooksUp k k') :
    a.Same k k' ∧ ∀ d, a.idle d k → a.idle d k' := by
  cases h with
  | known => exact ⟨.refl hk, fun d => id⟩
  | asked => exact ha.lookUp hk rfl

/-- Connecting makes and removes nothing, however long it takes, and opens and closes nothing if the
socket was idle. -/
theorem Kept.joins (ha : a.Kept) (hk : a.valid k) {d : Descriptor} {e : Endpoint}
    (h : Method.Joins d e k k') :
    a.Stays k k' ∧ (a.idle d k → a.descriptors k' = a.descriptors k) := by
  obtain ⟨hconnect, hidle⟩ := ha.connect (d := d) (e := e) hk rfl
  have hawait := ha.awaitWritable (d := d) hconnect.valid rfl
  have hask := ha.takeError (d := d) hawait.valid rfl
  cases h with
  | atOnce => exact ⟨hconnect, hidle⟩
  | waited =>
      exact ⟨hconnect.trans hawait.toStays, fun h => hawait.descriptors.trans (hidle h)⟩
  | asked =>
      have hrest := hawait.trans hask
      exact ⟨hconnect.trans hrest.toStays, fun h => hrest.descriptors.trans (hidle h)⟩

end

end Kernel.Accounts

/-! ## What a program has opened and made -/

variable {a : Kernel.Accounts K P} {m m' m'' : Machine K} {s s' : Socket} {d : Descriptor}
  {own : Option Endpoint}

/-- Whatever is held is open. -/
structure Machine.Backed (a : Kernel.Accounts K P) (m : Machine K) : Prop where
  valid : a.valid m.kernel
  held : ∀ d ∈ m.held, d ∈ a.descriptors m.kernel

/-- One file more is there than before, since the kernel has refused to remove it; nothing was done
after that but to close a descriptor. -/
def Machine.Leaves [Kernel K] (a : Kernel.Accounts K P) (path : List UInt8) (m m' : Machine K) :
    Prop :=
  ∃ place d k k' errno, place ∉ a.files m.kernel
    ∧ a.files m'.kernel = insert place (a.files m.kernel) ∧ a.locate m'.kernel path = some place
    ∧ Kernel.unlink path k = (.error errno, k') ∧ m'.kernel = (Kernel.close d k').2

/-- The same is open and held as before. The same is there, but for a file at the endpoint to bind
to that the kernel has refused to remove. -/
structure Machine.Restored [Kernel K] (a : Kernel.Accounts K P) (own : Option Endpoint)
    (m m' : Machine K) : Prop where
  valid : a.valid m'.kernel
  descriptors : a.descriptors m'.kernel = a.descriptors m.kernel
  held : m'.held = m.held
  files : a.files m'.kernel = a.files m.kernel
    ∨ ∃ path, own = some (.unix (.path path)) ∧ m.Leaves a path m'

/-- A socket is all that has been opened since, and its file, if it has one, is all that has been
made, at the endpoint to bind to. -/
structure Machine.Bears (a : Kernel.Accounts K P) (own : Option Endpoint) (m : Machine K)
    (d : Descriptor) (s : Socket) (m' : Machine K) : Prop where
  valid : a.valid m'.kernel
  fresh : d ∉ a.descriptors m.kernel
  descriptors : a.descriptors m'.kernel = insert d (a.descriptors m.kernel)
  held : m'.held = d :: m.held
  descriptor : s.descriptor = some d
  notClosed : s.state ≠ .closed
  pending : s.pending = []
  file : s.file = none ∧ a.files m'.kernel = a.files m.kernel
    ∨ ∃ path place, s.file = some path ∧ own = some (.unix (.path path))
      ∧ place ∉ a.files m.kernel ∧ a.files m'.kernel = insert place (a.files m.kernel)
      ∧ a.locate m'.kernel path = some place

namespace Machine

/-- The socket may change, as long as it keeps its descriptor and its file and is not closed. -/
theorem Bears.congr (h : Bears a own m d s m') (hdescriptor : s'.descriptor = s.descriptor)
    (hfile : s'.file = s.file) (hpending : s'.pending = s.pending) (hstate : s'.state ≠ .closed) :
    Bears a own m d s' m' :=
  ⟨h.valid, h.fresh, h.descriptors, h.held, hdescriptor.trans h.descriptor, hstate,
    hpending.trans h.pending, hfile ▸ h.file⟩

/-- A call that opens, closes, makes and removes nothing. -/
theorem Bears.same (h : Bears a own m d s m') (hsame : a.Same m'.kernel m''.kernel)
    (hheld : m''.held = m'.held) : Bears a own m d s m'' := by
  refine ⟨hsame.valid, h.fresh, hsame.descriptors.trans h.descriptors, hheld.trans h.held,
    h.descriptor, h.notClosed, h.pending, ?_⟩
  rcases h.file with ⟨hnone, hfiles⟩ | ⟨path, place, hfile, hown, hfresh, hfiles, hlocate⟩
  · exact .inl ⟨hnone, hsame.files.trans hfiles⟩
  · have hthere : place ∈ a.files m'.kernel := hfiles ▸ Set.mem_insert _ _
    exact .inr ⟨path, place, hfile, hown, hfresh, hsame.files.trans hfiles,
      hsame.locate hlocate hthere (hsame.files ▸ hthere)⟩

/-- The first file that is made is the socket's. -/
theorem Bears.makes {path : List UInt8} {place : P} (h : Bears a own m d s m')
    (hnone : s.file = none) (hown : own = some (.unix (.path path)))
    (hmakes : a.Makes m'.kernel m''.kernel d path place) (hheld : m''.held = m'.held)
    (hdescriptor : s'.descriptor = s.descriptor) (hfile : s'.file = some path)
    (hpending : s'.pending = s.pending) (hstate : s'.state ≠ .closed) :
    Bears a own m d s' m'' := by
  have hfiles : a.files m'.kernel = a.files m.kernel := by
    rcases h.file with ⟨-, hfiles⟩ | ⟨path, place, hsome, -⟩
    · exact hfiles
    · cases hnone.symm.trans hsome
  refine ⟨hmakes.valid, h.fresh, hmakes.descriptors.trans h.descriptors, hheld.trans h.held,
    hdescriptor.trans h.descriptor, hstate, hpending.trans h.pending,
    .inr ⟨path, place, hfile, hown, ?_, ?_, hmakes.leads⟩⟩
  · exact hfiles ▸ hmakes.fresh
  · rw [hmakes.files, hfiles]

variable [Kernel K]

/-- Giving up a socket that nobody else holds: its file is removed, and its descriptor closed. -/
theorem drop_unshared {ds : List Descriptor} (hdescriptor : s.descriptor = some d)
    (hstate : s.state ≠ .closed) (hpending : s.pending = []) (hheld : m.held = d :: ds)
    (hd : d ∉ ds) : (s.drop m).held = ds ∧ (s.drop m).kernel
      = (Kernel.close d (s.file.elim m.kernel fun path => (Kernel.unlink path m.kernel).2)).2 := by
  have hdrop : s.drop m = (s.closing m).2 := by
    unfold Socket.drop Socket.close
    rw [if_neg (by simpa using hstate)]
  have hlast : ¬ 1 < (d :: ds).count d := by
    rw [List.count_cons_self, List.count_eq_zero_of_not_mem hd]
    omega
  rw [hdrop]
  unfold Socket.closing Socket.removing Socket.cancelling
  simp only [hdescriptor, hpending, cancelAll, List.foldl_nil, hheld, if_neg hlast]
  cases s.file with
  | none => simp [release, hd]
  | some path => simp [release, hd]

/-- **What a socket bears goes with it**, but for a file that the kernel refuses to remove. -/
theorem Bears.restored (ha : a.Kept) (hm : m.Backed a) (h : Bears a own m d s m') :
    m.Restored a own (s.drop m') := by
  have hfresh : d ∉ m.held := fun hd => h.fresh (hm.held d hd)
  obtain ⟨hheld, hkernel⟩ := drop_unshared h.descriptor h.notClosed h.pending h.held hfresh
  have hback : insert d (a.descriptors m.kernel) \ {d} = a.descriptors m.kernel :=
    Set.insert_sdiff_self_of_notMem h.fresh
  rcases h.file with ⟨hnone, hfiles⟩ | ⟨path, place, hfile, hown, hnew, hfiles, hlocate⟩
  · rw [hnone, Option.elim_none] at hkernel
    have hcloses : a.Closes m'.kernel (Kernel.close d m'.kernel).2 d := ha.close h.valid rfl
    rw [← hkernel] at hcloses
    exact ⟨hcloses.valid, by rw [hcloses.descriptors, h.descriptors, hback], hheld,
      .inl (hcloses.files.trans hfiles)⟩
  · rw [hfile, Option.elim_some] at hkernel
    cases hunlink : Kernel.unlink path m'.kernel with
    | mk answer k =>
        rw [hunlink] at hkernel
        rcases ha.unlink h.valid hunlink with
          ⟨⟨errno, rfl⟩, hsame⟩ | ⟨-, place', hlocate', hremoves⟩
        · -- the file is where it was, and stays there
          have hcloses : a.Closes k (Kernel.close d k).2 d := ha.close hsame.valid rfl
          rw [← hkernel] at hcloses
          have hthere : place ∈ a.files m'.kernel := hfiles ▸ Set.mem_insert _ _
          have hstays := hsame.toStays.trans hcloses.toStays
          refine ⟨hcloses.valid, ?_, hheld, .inr ⟨path, hown, place, d, m'.kernel, k, errno, hnew,
            hstays.files.trans hfiles, ?_, hunlink, hkernel⟩⟩
          · rw [hcloses.descriptors, hsame.descriptors, h.descriptors, hback]
          · exact hstays.locate hlocate hthere (hstays.files ▸ hthere)
        · obtain rfl := Option.some.inj (hlocate.symm.trans hlocate')
          have hcloses : a.Closes k (Kernel.close d k).2 d := ha.close hremoves.valid rfl
          rw [← hkernel] at hcloses
          refine ⟨hcloses.valid, ?_, hheld, .inl ?_⟩
          · rw [hcloses.descriptors, hremoves.descriptors, h.descriptors, hback]
          · rw [hcloses.files, hremoves.files, hfiles, Set.insert_sdiff_self_of_notMem hnew]

end Machine

end PacedNet
