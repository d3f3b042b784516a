import PacedNet.FileTree
import PacedNet.Proofs.Text.Cutting
import PacedNet.Proofs.Text.Encoding

/-!
# Places and their names

A path leads to a place, one component after the other. With no symbolic links a file lies at one
place, and the absolute path of the place is the canonical path of whatever leads there
(`canonical_eq`).

The components of a place are pieces: not empty, and without a separator. A walk leads from pieces
to pieces (`walk_pieces`), and joining them loses nothing, so two places never have one name
(`nameOf_inj`). A name is octets. As it is shown, with a mark for what is not text, it is one place's
alone among the names that are text (`shownName_inj`).
-/

namespace PacedNet.FileTree

/-- What the components of an absolute path are. -/
def IsPiece (piece : List UInt8) : Prop := piece ≠ [] ∧ 0x2F ∉ piece

/-- Relative paths start from a directory that there can be. -/
def Homed (t : FileTree) : Prop := ∀ piece ∈ t.home, IsPiece piece

/-- The absolute path of a place. -/
def nameOf (place : List (List UInt8)) : List UInt8 := 0x2F :: [0x2F].intercalate place

def shownName (place : List (List UInt8)) : String := Text.decodeLossy (nameOf place)

/-- The absolute path of a place is the encoding of a text. -/
def Legible (place : List (List UInt8)) : Prop := ∃ s, nameOf place = Text.encode s

variable {t : FileTree} {place place' : List (List UInt8)} {path : List UInt8} {text : String}

theorem canonical_eq (h : t.resolve path = .ok place) : t.canonical path = nameOf place := by
  unfold canonical
  rw [h]
  rfl

/-- What can be read lies at the place that the path leads to. -/
theorem readText_place (h : t.readText path = .ok text) :
    ∃ place entry, t.resolve path = .ok place ∧ t.entries.lookup place = some entry := by
  unfold readText at h
  cases hplace : t.resolve path with
  | error fault =>
      rw [hplace] at h
      exact absurd h (by simp [bind, Except.bind])
  | ok place =>
      rw [hplace] at h
      cases hentry : t.entries.lookup place with
      | some entry => exact ⟨place, entry, rfl, hentry⟩
      | none =>
          simp only [bind, Except.bind, hentry] at h
          exact absurd h (by simp)

/-- Pieces without separators can be read off what they are joined to. -/
theorem splitOn_nameOf (hne : place ≠ []) (h : ∀ piece ∈ place, IsPiece piece) :
    (nameOf place).tail.splitOn 0x2F = place :=
  List.splitOn_intercalate 0x2F (fun piece hpiece => (h piece hpiece).2) hne

theorem nameOf_ne_root (hne : place ≠ []) (h : ∀ piece ∈ place, IsPiece piece) :
    nameOf place ≠ nameOf [] := by
  intro hname
  -- what is read off the name of the root is one piece, and empty
  have hempty : place = [[]] := by
    rw [← splitOn_nameOf hne h, hname]
    rfl
  subst hempty
  exact (h [] (List.mem_singleton_self [])).1 rfl

/-- **Two places never have one name.** -/
theorem nameOf_inj (h : ∀ piece ∈ place, IsPiece piece) (h' : ∀ piece ∈ place', IsPiece piece)
    (hname : nameOf place = nameOf place') : place = place' := by
  rcases eq_or_ne place [] with rfl | hne
  · by_contra hne'
    exact nameOf_ne_root (Ne.symm hne') h' hname.symm
  · rcases eq_or_ne place' [] with rfl | hne'
    · exact absurd hname (nameOf_ne_root hne h)
    · rw [← splitOn_nameOf hne h, hname, splitOn_nameOf hne' h']

/-- Two places whose names are text are not shown alike. -/
theorem shownName_inj (h : ∀ piece ∈ place, IsPiece piece) (h' : ∀ piece ∈ place', IsPiece piece)
    (htext : Legible place) (htext' : Legible place') (hshown : shownName place = shownName place') :
    place = place' := by
  obtain ⟨s, hs⟩ := htext
  obtain ⟨s', hs'⟩ := htext'
  have heq : s = s' := by
    rw [← Text.decodeLossy_encode s, ← hs, ← Text.decodeLossy_encode s', ← hs']
    exact hshown
  exact nameOf_inj h h' (by rw [hs, hs', heq])

/-- A walk leads from pieces to pieces. -/
theorem walk_pieces {rest : List (List UInt8)} (hplace : ∀ piece ∈ place, IsPiece piece)
    (hrest : ∀ piece ∈ rest, 0x2F ∉ piece) (h : t.walk place rest = .ok place') :
    ∀ piece ∈ place', IsPiece piece := by
  induction rest generalizing place with
  | nil =>
      injection h with h
      exact h ▸ hplace
  | cons piece rest ih =>
      obtain ⟨hpiece, hrest⟩ := List.forall_mem_cons.mp hrest
      rw [walk] at h
      split_ifs at h with _ hstay hup
      · exact ih hplace hrest h
      · exact ih (fun p hp => hplace p (List.dropLast_subset place hp)) hrest h
      · refine ih (fun p hp => ?_) hrest h
        rcases List.mem_append.mp hp with hp | hp
        · exact hplace p hp
        · rw [List.mem_singleton.mp hp]
          exact ⟨fun hempty => hstay (Or.inl hempty), hpiece⟩

theorem pieces_separated {piece : List UInt8} (h : piece ∈ Path.pieces path) : 0x2F ∉ piece :=
  (Text.mem_splitOn h).1

theorem resolve_pieces (ht : t.Homed) (h : t.resolve path = .ok place) :
    ∀ piece ∈ place, IsPiece piece := by
  unfold resolve at h
  split_ifs at h
  · exact walk_pieces (by simp) (fun _ => pieces_separated) h
  · exact walk_pieces ht (fun _ => pieces_separated) h

end PacedNet.FileTree
