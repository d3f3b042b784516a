import Mathlib.Data.List.Forall2
import PacedNet.Config.Source
import PacedNet.Proofs.Config.Tree

/-!
# Reading a source keeps the tree sound

A source is read in two steps: each of its lines becomes a record, and the records
are applied one after the other (`scan_eq_ok`).

What has been read is **sound** when its tree is, and when the section that is open
and every section with an inclusion are there. A record keeps it so (`sound_apply`),
and therefore all records do (`scan_sound`).
-/

namespace PacedNet.Config

/-- The sign of a tree of its own: sound, with neither name nor path at its root. -/
structure Node.Rooted (n : Node) : Prop where
  sound : n.Sound
  name : n.name = ""
  path : n.path = ""

/-- A section is at the list of names. -/
def Node.Holds (n : Node) (ps : List String) : Prop := ∃ p, n.at? ps = some p

namespace Scan

/-- The tree is sound, and what is referred to by names is there. -/
structure Sound (s : Scan) : Prop where
  rooted : s.root.Rooted
  current : s.root.Holds s.current
  scopes : ∀ i ∈ s.inclusions, s.root.Holds i.scope

theorem sound_start : start.Sound :=
  ⟨⟨Node.sound_root, rfl, rfl⟩, ⟨_, rfl⟩, by simp [start]⟩

/-! ## What stays when something is added -/

/-- Where there was a section there is one after opening another, and the opened one is there. -/
theorem holds_openAt {n t : Node} {names : List String} (h : n.Sound)
    (ht : Node.openAt names n = .ok t) {ps : List String} (hps : n.Holds ps ∨ ps <+: names) :
    t.Holds ps := by
  induction names generalizing n t ps with
  | nil =>
      injection ht with ht
      subst ht
      rcases hps with hps | hps
      · exact hps
      · rw [List.prefix_nil.mp hps]; exact ⟨_, rfl⟩
  | cons y names ih =>
      obtain ⟨hbar, c, hopen, rfl⟩ := Node.openAt_cons_eq_ok ht
      obtain ⟨rfl, -, hkey⟩ := h.of_openAt_cons hbar hopen
      cases ps with
      | nil => exact ⟨_, rfl⟩
      | cons x ps =>
          by_cases hx : x = c.name
          · -- through the opened child, where the rest of the names is to be found
            subst hx
            have hrest : (n.childOrNew c.name).Holds ps ∨ ps <+: names := by
              rcases hps with ⟨p, hp⟩ | hps
              · obtain ⟨d, hd, hdp⟩ := Node.at?_cons_eq_some hp
                exact Or.inl ⟨p, by rwa [Node.childOrNew_of_child? hd]⟩
              · exact Or.inr ((List.prefix_cons_inj _).mp hps)
            obtain ⟨p, hp⟩ := ih (h.childOrNew c.name).1 hopen hrest
            exact ⟨p, by rwa [Node.at?_cons (Node.child?_setChild_self h.indexed hkey)]⟩
          · -- through another child, which stays where it was
            rcases hps with ⟨p, hp⟩ | hps
            · obtain ⟨d, hd, hdp⟩ := Node.at?_cons_eq_some hp
              have hsame := Node.child?_setChild_ne h.indexed hkey hx
              exact ⟨p, by rwa [Node.at?_cons (hsame.trans hd)]⟩
            · exact absurd (List.cons_prefix_cons.mp hps).1 hx

/-- A change that takes no child away takes no section away. -/
theorem holds_modifyAt {n q : Node} {f : Node → Node} {ps qs : List String} (h : n.Sound)
    (hf : ∀ m, (f m).name = m.name) (hq : n.at? qs = some q)
    (keep : ∀ x c, q.child? x = some c → (f q).child? x = some c) (hp : n.Holds ps) :
    (n.modifyAt f qs).Holds ps := by
  obtain ⟨p, hp⟩ := hp
  by_cases hpre : ps <+: qs
  · obtain ⟨rest, rfl⟩ := hpre
    rw [Node.modifyAt_append]
    exact ⟨_, Node.at?_modifyAt h (Node.name_modifyAt hf rest) hp⟩
  · exact ⟨p, Node.at?_modifyAt_frame h hf hq keep hpre hp⟩

/-! ## One record -/

variable {s s' : Scan}

theorem heading_eq_ok {names : List String} (h : s.heading names = .ok s') :
    names ∉ s.declared ∧ ∃ root, s.root.openAt names = .ok root
      ∧ s' = { s with root, current := names, declared := s.declared ++ [names] } := by
  unfold heading at h
  split at h
  · exact absurd h (by simp)
  · rename_i hnew
    refine ⟨by simpa using hnew, ?_⟩
    split at h
    · exact absurd h (by simp)
    · rename_i root hopen
      injection h with h
      exact ⟨root, hopen, h.symm⟩

theorem entry_eq_ok {key value : String} (h : s.entry key value = .ok s') :
    (s.root.nodeAt s.current).hasName key = false
      ∧ s' = { s with root := s.root.modifyAt (·.addEntry key value) s.current } := by
  unfold entry at h
  dsimp only at h
  split at h
  · exact absurd h (by simp)
  · rename_i hfree
    injection h with h
    exact ⟨by simpa using hfree, h.symm⟩

theorem sound_apply {r : Line} (hr : r.Shaped) (h : s.Sound) (hs : s.apply r = .ok s') :
    s'.Sound := by
  cases r with
  | blank => injection hs with hs; exact hs ▸ h
  | heading names =>
      obtain ⟨-, root, hopen, rfl⟩ := heading_eq_ok hs
      have hroot := Node.openAt_eq_modifyAt hopen
      refine ⟨⟨Node.sound_openAt h.rooted.sound hr.2 hopen, ?_, ?_⟩, ?_, fun i hi => ?_⟩
      · rw [hroot, Node.name_modifyAt (f := id) (fun _ => rfl), h.rooted.name]
      · rw [hroot, Node.path_modifyAt (f := id) (fun _ => rfl), h.rooted.path]
      · exact holds_openAt h.rooted.sound hopen (Or.inr (List.prefix_refl _))
      · exact holds_openAt h.rooted.sound hopen (Or.inl (h.scopes i hi))
  | entry key value =>
      obtain ⟨hfree, rfl⟩ := entry_eq_ok hs
      obtain ⟨p, hp⟩ := h.current
      -- the section that is open is there, so the entry is added to it and not to a new one
      rw [Node.nodeAt_of_at? hp] at hfree
      have hps := h.rooted.sound.at? hp
      have hkey : key ∉ p.names := fun hk => by
        rw [(Node.hasName_iff hps.indexed).mpr hk] at hfree
        exact absurd hfree (by simp)
      have stays {ps} : s.root.Holds ps → (s.root.modifyAt (·.addEntry key value) s.current).Holds ps :=
        holds_modifyAt h.rooted.sound (fun _ => rfl) hp (fun _ _ hc => hc)
      refine ⟨⟨?_, ?_, ?_⟩, stays h.current, fun i hi => stays (h.scopes i hi)⟩
      · exact Node.sound_modifyAt h.rooted.sound (fun _ => rfl) (fun _ => rfl) hp
          (Node.sound_addEntry hps hkey hr.1 hr.2)
      · exact (Node.name_modifyAt (f := (·.addEntry key value)) (fun _ => rfl) _ _).trans
          h.rooted.name
      · exact (Node.path_modifyAt (f := (·.addEntry key value)) (fun _ => rfl) _ _).trans
          h.rooted.path
  | inclusion name =>
      injection hs with hs
      subst hs
      refine ⟨h.rooted, h.current, fun i hi => ?_⟩
      rcases List.mem_append.mp hi with hi | hi
      · exact h.scopes i hi
      · rw [List.mem_singleton.mp hi]; exact h.current

/-! ## All records -/

/-- Reading goes on where it stopped. -/
theorem foldlM_append_eq_ok {ε σ α : Type} {f : σ → α → Except ε σ} {s t : σ} {as bs : List α} :
    (as ++ bs).foldlM f s = .ok t ↔ ∃ m, as.foldlM f s = .ok m ∧ bs.foldlM f m = .ok t := by
  rw [List.foldlM_append]
  cases as.foldlM f s <;> simp [bind, Except.bind]

theorem run_eq_ok {source : String} {number : Nat} {lines : List (List Char)} :
    run source number s lines = .ok s'
      ↔ ∃ records, lines.mapM Line.read = .ok records ∧ records.foldlM apply s = .ok s' := by
  induction lines generalizing number s with
  | nil => simp [run, pure, Except.pure]
  | cons line rest ih =>
      -- the number of a line is for errors only
      rw [run, step, List.mapM_cons]
      cases Line.read line with
      | error fault => simp [bind, Except.bind]
      | ok record =>
          dsimp only
          cases hstep : s.apply record with
          | error breach =>
              cases rest.mapM Line.read <;> simp [bind, Except.bind, pure, Except.pure, hstep]
          | ok m =>
              dsimp only
              rw [ih]
              cases rest.mapM Line.read <;> simp [bind, Except.bind, pure, Except.pure, hstep]

/-- All that is computed of a list is computed of its elements, in their order. -/
theorem mapM_eq_ok {ε α β : Type} {f : α → Except ε β} {as : List α} {bs : List β} :
    as.mapM f = .ok bs ↔ List.Forall₂ (fun a b => f a = .ok b) as bs := by
  induction as generalizing bs with
  | nil =>
      rw [List.forall₂_nil_left_iff]
      exact ⟨fun h => (Except.ok.inj h).symm, fun h => h ▸ rfl⟩
  | cons a rest ih =>
      rw [List.mapM_cons, List.forall₂_cons_left_iff]
      cases ha : f a with
      | error e => simp [bind, Except.bind]
      | ok b =>
          cases hrest : rest.mapM f with
          | error e => simp [bind, Except.bind, ← ih, hrest]
          | ok more => simp [bind, Except.bind, pure, Except.pure, ← ih, hrest, eq_comm]

/-- What is computed of a list comes of an element. -/
theorem mem_of_mapM {ε α β : Type} {f : α → Except ε β} {as : List α} {bs : List β} {b : β}
    (h : as.mapM f = .ok bs) : b ∈ bs ↔ ∃ a ∈ as, f a = .ok b := by
  induction mapM_eq_ok.mp h with
  | nil => simp
  | cons ha hrest ih => simp [ih (mapM_eq_ok.mpr hrest), ha, eq_comm]

/-- What is read comes of well-shaped records only. -/
theorem shaped_of_mapM {lines : List (List Char)} {records : List Line}
    (hl : ∀ line ∈ lines, '\n' ∉ line) (h : lines.mapM Line.read = .ok records) :
    ∀ r ∈ records, r.Shaped := by
  intro r hr
  obtain ⟨line, hline, hread⟩ := (mem_of_mapM h).mp hr
  exact read_shaped (hl line hline) hread

theorem sound_foldlM {records : List Line} (hr : ∀ r ∈ records, r.Shaped) (h : s.Sound)
    (hs : records.foldlM apply s = .ok s') : s'.Sound := by
  induction records generalizing s with
  | nil => injection hs with hs; exact hs ▸ h
  | cons r rest ih =>
      rw [List.foldlM_cons] at hs
      cases hstep : s.apply r with
      | error breach => rw [hstep] at hs; exact absurd hs (by simp [bind, Except.bind])
      | ok m =>
          rw [hstep] at hs
          exact ih (fun q hq => hr q (List.mem_cons_of_mem _ hq))
            (sound_apply (hr r List.mem_cons_self) h hstep) hs

end Scan

theorem not_mem_of_mem_textLines {s line : List Char} (h : line ∈ textLines s) : '\n' ∉ line := by
  unfold textLines at h
  dsimp only at h
  split at h
  · exact (Text.mem_splitOn (List.dropLast_subset _ h)).1
  · exact (Text.mem_splitOn h).1

/-- The records of a text, if all its lines can be read. -/
def records (text : String) : Except LineFault (List Line) := (textLines text.toList).mapM Line.read

theorem scan_eq_ok {source text : String} {s : Scan} :
    scan source text = .ok s
      ↔ ∃ rs, records text = .ok rs ∧ rs.foldlM Scan.apply .start = .ok s := Scan.run_eq_ok

theorem records_shaped {text : String} {rs : List Line} (h : records text = .ok rs) :
    ∀ r ∈ rs, r.Shaped := Scan.shaped_of_mapM (fun _ hl => not_mem_of_mem_textLines hl) h

/-- **What is read of a source is sound.** -/
theorem scan_sound {source text : String} {s : Scan} (h : scan source text = .ok s) : s.Sound := by
  obtain ⟨rs, hrs, hs⟩ := scan_eq_ok.mp h
  exact Scan.sound_foldlM (records_shaped hrs) Scan.sound_start hs

end PacedNet.Config
