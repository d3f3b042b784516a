import PacedNet.Proofs.Address.Octets
import PacedNet.Proofs.Host.Streaming
import Mathlib.Data.List.Basic

/-!
# Where paths lead

A path leads through directories, of which there are always the same, so the files that come and go
are no matter on its way: only what lies at its end counts (`locate_of_holds`). A path that is
vacant leads to the place that a file gets there (`vacancy_spec`). Of all calls only binding makes a
file, and only where it succeeds (`nodes_bind`).
-/

namespace PacedNet.Host

variable {h h' : Host} {place q directory : Place} {pieces rest : List (List UInt8)}
  {path : List UInt8} {d : Descriptor} {e : Endpoint}

theorem holds_iff :
    h.holds place = true ↔ isDirectory place = true ∨ ∃ node, (place, node) ∈ h.nodes := by
  unfold holds
  rw [Bool.or_eq_true, List.lookup_isSome_iff]
  refine or_congr_right
    ⟨fun ⟨p, hp, hplace⟩ => ?_, fun ⟨node, hnode⟩ => ⟨_, hnode, beq_self_eq_true _⟩⟩
  rw [beq_iff_eq] at hplace
  exact ⟨p.2, hplace ▸ hp⟩

/-- Nothing lies below a file. -/
theorem walk_file (hfile : isDirectory place = false) (hwalk : h.walk place rest = .ok q) :
    q = place := by
  cases rest with
  | nil =>
      injection hwalk with hwalk
      exact hwalk.symm
  | cons piece rest =>
      unfold walk at hwalk
      rw [hfile] at hwalk
      exact absurd hwalk (by simp)

/-- One component of a way: it cannot be gone, leads to a directory whatever the files are, or is
the name of something that lies in a directory. -/
theorem walk_cons (place : Place) (piece : List UInt8) :
    (∀ (h : Host) rest, h.walk place (piece :: rest) = .error .notADirectory)
      ∨ (∃ next, ∀ (h : Host) rest, h.walk place (piece :: rest) = h.walk next rest)
      ∨ isDirectory place = true ∧ ∀ (h : Host) rest, h.walk place (piece :: rest)
        = if h.holds (place ++ [piece]) then h.walk (place ++ [piece]) rest
          else .error .notFound := by
  cases hdirectory : isDirectory place with
  | false => exact .inl fun h rest => by rw [walk, hdirectory]; rfl
  | true =>
      have hstart (h : Host) (rest) : h.walk place (piece :: rest)
          = if piece = [] ∨ piece = [0x2E] then h.walk place rest
            else if piece = [0x2E, 0x2E] then h.walk place.dropLast rest
            else if h.holds (place ++ [piece]) then h.walk (place ++ [piece]) rest
            else .error .notFound := by
        rw [walk, hdirectory]
        rfl
      by_cases hdot : piece = [] ∨ piece = [0x2E]
      · exact .inr (.inl ⟨place, fun h rest => by rw [hstart, if_pos hdot]⟩)
      · by_cases hdots : piece = [0x2E, 0x2E]
        · exact .inr (.inl
            ⟨place.dropLast, fun h rest => by rw [hstart, if_neg hdot, if_pos hdots]⟩)
        · exact .inr (.inr ⟨rfl, fun h rest => by rw [hstart, if_neg hdot, if_neg hdots]⟩)

/-- A way that leads somewhere leads there as long as there is something. -/
theorem walk_of_holds (hwalk : h.walk place pieces = .ok q) (hq : h'.holds q = true) :
    h'.walk place pieces = .ok q := by
  induction pieces generalizing place with
  | nil => exact hwalk
  | cons piece rest ih =>
      rcases walk_cons place piece with hno | ⟨next, hnext⟩ | ⟨-, hname⟩
      · exact absurd ((hno h rest).symm.trans hwalk) (by simp)
      · rw [hnext] at hwalk ⊢
        exact ih hwalk
      · rw [hname] at hwalk ⊢
        split at hwalk
        · -- a file on the way is the end of the way
          have hthere : h'.holds (place ++ [piece]) = true := by
            cases hfile : isDirectory (place ++ [piece]) with
            | true => exact holds_iff.mpr (.inl hfile)
            | false => rwa [← walk_file hfile hwalk]
          rw [if_pos hthere]
          exact ih hwalk
        · exact absurd hwalk (by simp)

theorem walk_append (hwalk : h.walk place pieces = .ok q) :
    h.walk place (pieces ++ rest) = h.walk q rest := by
  induction pieces generalizing place with
  | nil =>
      injection hwalk with hwalk
      rw [hwalk]
      rfl
  | cons piece pieces ih =>
      rw [List.cons_append]
      rcases walk_cons place piece with hno | ⟨next, hnext⟩ | ⟨-, hname⟩
      · exact absurd ((hno h pieces).symm.trans hwalk) (by simp)
      · rw [hnext] at hwalk ⊢
        exact ih hwalk
      · rw [hname] at hwalk ⊢
        split at hwalk
        · rename_i hthere
          rw [if_pos hthere]
          exact ih hwalk
        · exact absurd hwalk (by simp)

theorem locate_of_holds (hlocate : h.locate path = .ok place) (hplace : h'.holds place = true) :
    h'.locate path = .ok place := by
  unfold locate at hlocate ⊢
  split at hlocate
  · exact absurd hlocate (by simp)
  · rename_i hne
    rw [if_neg hne]
    exact walk_of_holds hlocate hplace

/-- A name that is missing lies in a directory, and leads to what is given it. -/
theorem walk_missing {piece : List UInt8} (hwalk : h.walk directory [piece] = .error .notFound) :
    isDirectory directory = true ∧ h.holds (directory ++ [piece]) = false
      ∧ ∀ h' : Host, h'.holds (directory ++ [piece]) = true →
        h'.walk directory [piece] = .ok (directory ++ [piece]) := by
  rcases walk_cons directory piece with hno | ⟨next, hnext⟩ | ⟨hdirectory, hname⟩
  · exact absurd ((hno h []).symm.trans hwalk) (by simp [Errno.notADirectory, Errno.notFound])
  · exact absurd ((hnext h []).symm.trans hwalk) (by simp [walk])
  · refine ⟨hdirectory, ?_, fun h' hthere => by rw [hname, if_pos hthere]; rfl⟩
    rw [hname] at hwalk
    split at hwalk
    · exact absurd hwalk (by simp [walk])
    · rename_i hmissing
      exact Bool.eq_false_iff.mpr hmissing

/-- **A vacant path** leads to nothing, and to the file that is made there. -/
theorem vacancy_spec (hvacant : h.vacancy path = .ok place) :
    isDirectory place = false ∧ h.holds place = false
      ∧ ∀ h' : Host, h'.holds place = true → h'.locate path = .ok place := by
  unfold vacancy at hvacant
  split at hvacant
  · exact absurd hvacant (by simp)
  · rename_i hlocate
    split at hvacant
    · rename_i b name hlast
      have hne : path ≠ [] := by
        rintro rfl
        have hlone : (components []).getLast? = some [] := by decide
        exact absurd (hlone.symm.trans hlast) (by simp)
      cases hdirectory : h.walk (origin path) (components path).dropLast with
      | error e =>
          rw [hdirectory] at hvacant
          exact absurd hvacant (by rintro ⟨⟩)
      | ok directory =>
          rw [hdirectory] at hvacant
          injection hvacant with hplace
          subst hplace
          have hpieces : (components path).dropLast ++ [b :: name] = components path :=
            List.dropLast_append_getLast? _ hlast
          unfold locate at hlocate
          rw [if_neg hne, ← hpieces, walk_append hdirectory] at hlocate
          obtain ⟨hdir, hno, hthere⟩ := walk_missing hlocate
          refine ⟨?_, hno, fun h' hholds => ?_⟩
          · unfold holds at hno
            exact (Bool.or_eq_false_iff.mp hno).1
          · unfold locate
            rw [if_neg hne, ← hpieces,
              walk_append (walk_of_holds hdirectory (holds_iff.mpr (.inl hdir)))]
            exact hthere h' hholds
    · exact absurd hvacant (by simp)
  · exact absurd hvacant (by simp)

/-- Removing a file takes its place out and nothing else, or is refused. -/
theorem unlink_cases {r : Except Errno Unit} (hrun : h.unlink path = (r, h')) :
    (∃ errno, r = .error errno) ∧ h' = h
      ∨ r = .ok () ∧ ∃ place, h.locate path = .ok place
        ∧ h' = { h with nodes := h.nodes.filter (·.1 ≠ place) } := by
  unfold unlink at hrun
  cases hlocate : h.locate path with
  | error errno =>
      rw [hlocate] at hrun
      injection hrun with hr hh
      exact .inl ⟨⟨errno, hr.symm⟩, hh.symm⟩
  | ok place =>
      rw [hlocate] at hrun
      dsimp only at hrun
      split at hrun
      · injection hrun with hr hh
        exact .inl ⟨⟨_, hr.symm⟩, hh.symm⟩
      · split at hrun
        · injection hrun with hr hh
          exact .inl ⟨⟨_, hr.symm⟩, hh.symm⟩
        · injection hrun with hr hh
          exact .inr ⟨hr.symm, place, rfl, hh.symm⟩

/-! ## Names as octets -/

/-- The address that is read from the octets of one that fits. -/
theorem normal_unix {a : UnixAddress} {body : List UInt8}
    (hraw : a.raw? = some (Family.unix.octets ++ body)) (hroom : body.length ≤ UnixAddress.room) :
    normal (.unix a) = .unix (UnixAddress.ofBody body) := by
  unfold normal
  dsimp only
  rw [hraw]
  dsimp only
  rw [UnixAddress.ofRaw?_append hroom]
  rfl

theorem normal_unfit {a : UnixAddress} (hraw : a.raw? = none) : normal (.unix a) = .unix a := by
  unfold normal
  dsimp only
  rw [hraw]

/-- A name that its octets tell from all others is read back as it was written. -/
theorem normal_named {a : UnixAddress} (hnamed : a.IsNamed) : normal (.unix a) = .unix a := by
  cases hraw : a.raw? with
  | none => exact normal_unfit hraw
  | some raw =>
      unfold normal
      dsimp only
      rw [hraw]
      dsimp only
      rw [(UnixAddress.ofRaw?_raw? hraw).mpr hnamed]
      rfl

/-- An empty path is none in the file tree. -/
theorem normal_empty : ∃ name, normal (.unix (.path [])) = .unix (.abstract name) :=
  by
  have hraw : UnixAddress.unnamed.raw?
      = some (Family.unix.octets ++ List.replicate UnixAddress.room 0) := rfl
  exact ⟨_, normal_unix hraw (by simp)⟩

/-! ## Which calls make files -/

/-- A call that leaves the files as they are. -/
def KeepsNodes {α : Type} (call : HostCall α) : Prop := ∀ h, (call.run h).2.nodes = h.nodes

section

variable {α β : Type} {call : HostCall α} {next : α → HostCall β}

theorem keepsNodes_pure (a : α) : KeepsNodes (pure a : HostCall α) := fun _ => rfl

theorem keepsNodes_throw (errno : Errno) : KeepsNodes (throw errno : HostCall α) := fun _ => rfl

theorem keepsNodes_get : KeepsNodes (get : HostCall Host) := fun _ => rfl

theorem keepsNodes_modify {f : Host → Host} (hf : ∀ h, (f h).nodes = h.nodes) :
    KeepsNodes (modify f : HostCall PUnit) := hf

theorem keepsNodes_bind (hcall : KeepsNodes call) (hnext : ∀ a, KeepsNodes (next a)) :
    KeepsNodes (call >>= next) := by
  intro h
  cases hrun : (call >>= next).run h with
  | mk r h' =>
      rcases run_bind hrun with ⟨a, h₁, hfirst, hrest⟩ | ⟨e, hfirst, -⟩
      · have hsecond := hnext a h₁
        rw [hrest] at hsecond
        have hstart := hcall h
        rw [hfirst] at hstart
        exact hsecond.trans hstart
      · have hstart := hcall h
        rwa [hfirst] at hstart

end

theorem keepsNodes_station : KeepsNodes (station d) := by
  unfold station
  refine keepsNodes_bind keepsNodes_get fun h => ?_
  split
  · exact keepsNodes_pure _
  · exact keepsNodes_throw _

theorem keepsNodes_update {f : Station → Station} :
    KeepsNodes (modify fun h => h.update d f : HostCall PUnit) := keepsNodes_modify fun _ => rfl

theorem keepsNodes_add {s : Station} : KeepsNodes (add s) := fun _ => rfl

theorem keepsNodes_listen {backlog : Int} : KeepsNodes (listen d backlog) := by
  unfold listen
  refine keepsNodes_bind keepsNodes_station fun s => ?_
  split
  · exact keepsNodes_throw _
  · exact keepsNodes_update

theorem keepsNodes_accept : KeepsNodes (accept d) := by
  unfold accept
  refine keepsNodes_bind keepsNodes_station fun s => ?_
  split
  · exact keepsNodes_bind keepsNodes_update fun _ => keepsNodes_bind keepsNodes_get fun _ =>
      keepsNodes_pure _
  · exact keepsNodes_throw _

theorem keepsNodes_connect : KeepsNodes (connect d e) := by
  have hstream (s target : Station) (far : Descriptor) :
      KeepsNodes (connectStream d far s target) := by
    unfold connectStream
    split
    · split
      · exact keepsNodes_throw _
      · exact keepsNodes_bind keepsNodes_add fun _ => keepsNodes_bind keepsNodes_update fun _ =>
          keepsNodes_update
    · exact keepsNodes_throw _
  have hdatagram (target : Station) (far : Descriptor) :
      KeepsNodes (connectDatagram d far target) := by
    unfold connectDatagram
    split
    · exact keepsNodes_update
    · exact keepsNodes_throw _
  unfold connect
  refine keepsNodes_bind keepsNodes_station fun s => ?_
  split
  · refine keepsNodes_bind keepsNodes_get fun _ => keepsNodes_bind (fun _ => rfl) fun far =>
      keepsNodes_bind keepsNodes_get fun _ => ?_
    split
    · exact keepsNodes_throw _
    · split
      · exact keepsNodes_throw _
      · split
        · exact hstream _ _ _
        · exact hdatagram _ _
  · exact keepsNodes_throw _

theorem keepsNodes_shutdown {how : Direction} : KeepsNodes (shutdown d how) := by
  unfold shutdown
  refine keepsNodes_bind keepsNodes_station fun s => keepsNodes_bind keepsNodes_update fun _ => ?_
  split
  · exact keepsNodes_update
  · exact keepsNodes_pure _

/-- What is done to one socket after the other leaves the files alone if each of it does. -/
theorem nodes_foldl {f : Host → Descriptor → Host} (hf : ∀ h d, (f h d).nodes = h.nodes)
    (ds : List Descriptor) (h : Host) : (ds.foldl f h).nodes = h.nodes := by
  induction ds generalizing h with
  | nil => rfl
  | cons d rest ih => exact (ih _).trans (hf h d)

theorem keepsNodes_close : KeepsNodes (close d) := by
  unfold close
  refine keepsNodes_bind keepsNodes_station fun s => keepsNodes_bind keepsNodes_update fun _ => ?_
  split
  · exact keepsNodes_update
  · refine keepsNodes_modify (nodes_foldl (fun h far => ?_) _)
    dsimp only
    split <;> rfl
  · exact keepsNodes_pure _

theorem keepsNodes_duplicate (file : OpenFile) : KeepsNodes (duplicate file) := by
  unfold duplicate
  refine keepsNodes_bind keepsNodes_get fun h => ?_
  split
  · exact keepsNodes_throw _
  · exact fun _ => rfl

/-- **Binding** makes a file where it is given a path and succeeds. -/
theorem nodes_bind {r : Except Errno Unit} (hrun : (bind d e).run h = (r, h')) :
    h'.nodes = h.nodes ∧ ((∃ errno, r = .error errno) ∨ ∀ path, normal e ≠ .unix (.path path))
      ∨ ∃ path place, normal e = .unix (.path path) ∧ r = .ok () ∧ h.vacancy path = .ok place
          ∧ h'.nodes = (place, .station d) :: h.nodes := by
  unfold bind at hrun
  rcases run_bind hrun with ⟨s, h₁, hstation, hrest⟩ | ⟨errno, hstation, rfl⟩
  · obtain ⟨rfl, -⟩ := run_station hstation
    rw [run_get_bind] at hrest
    dsimp only at hrest
    split at hrest
    · rename_i path hnormal
      split at hrest
      · injection hrest with hr hh
        exact .inl ⟨by rw [← hh], .inl ⟨_, hr.symm⟩⟩
      · rename_i place hvacant
        injection hrest with hr hh
        exact .inr ⟨path, place, hnormal, hr.symm, hvacant, by rw [← hh]⟩
    · rename_i name hnormal
      refine .inl ⟨?_, .inr fun path hpath => absurd (hnormal.symm.trans hpath) (by simp)⟩
      split at hrest <;> (injection hrest with _ hh; exact hh ▸ rfl)
    · rename_i hnopath hnoname
      refine .inl ⟨?_, .inr hnopath⟩
      split at hrest
      · injection hrest with _ hh
        exact hh ▸ rfl
      · split at hrest <;> (injection hrest with _ hh; exact hh ▸ rfl)
  · exact .inl ⟨by rw [(run_station hstation).1], .inl ⟨errno, rfl⟩⟩

end PacedNet.Host
