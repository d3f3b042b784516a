import PacedNet.Proofs.Config.Tree

/-!
# Filling a section from another tree

`fill` offers a section the entries of a tree and then its children. What is
offered under a taken name is refused; all else is added at the end, children
with their paths changed to stand below the section (`fill_spec`). A refused
child is refused with all below it, so no subtree is ever mixed.
-/

namespace PacedNet.Config.Node

variable {n c t : Node} {x path : String}

/-! ## Subtrees that move -/

theorem rebaseAll_eq_map (path : String) (l : List Node) : rebaseAll path l = l.map (rebase path) := by
  induction l with
  | nil => rfl
  | cons n rest ih => rw [rebaseAll, ih, List.map_cons]

theorem rebase_eq (path : String) (n : Node) :
    n.rebase path = { n with path := extend path n.name
                             sections := n.sections.map (rebase (extend path n.name)) } := by
  cases n
  rw [rebase, rebaseAll_eq_map]

theorem name_rebase (path : String) (n : Node) : (n.rebase path).name = n.name := by
  rw [rebase_eq]

theorem path_rebase (path : String) (n : Node) : (n.rebase path).path = extend path n.name := by
  rw [rebase_eq]

theorem keys_rebase (path : String) (n : Node) : (n.rebase path).keys = n.keys := by
  rw [rebase_eq]; rfl

theorem childNames_rebase (path : String) (n : Node) :
    (n.rebase path).childNames = n.childNames := by
  rw [rebase_eq]
  unfold childNames
  rw [List.map_map]
  exact List.map_congr_left fun c _ => name_rebase _ c

/-- A sound subtree is sound wherever it stands. -/
theorem sound_rebase (h : Sound n) (path : String) : Sound (n.rebase path) := by
  induction n using induct generalizing path with
  | step n ih =>
      have hsec : (n.rebase path).sections = n.sections.map (rebase (extend path n.name)) := by
        rw [rebase_eq]
      have hindexed : (n.rebase path).Indexed := by
        refine ⟨?_, ?_, ?_⟩
        · rw [keys_rebase, ← h.indexed.entryIndex, rebase_eq]
        · rw [childNames_rebase, ← h.indexed.sectionIndex, rebase_eq]
        · unfold names; rw [keys_rebase, childNames_rebase]; exact h.indexed.nodup
      refine .intro ⟨hindexed, ?_, fun c hc => ?_⟩ fun c hc => ?_
      · rw [rebase_eq]; exact h.tidy.entries
      · rw [hsec] at hc
        obtain ⟨d, hd, rfl⟩ := List.mem_map.mp hc
        rw [name_rebase, path_rebase, path_rebase]
        exact ⟨(h.tidy.sections d hd).1, rfl⟩
      · rw [hsec] at hc
        obtain ⟨d, hd, rfl⟩ := List.mem_map.mp hc
        exact ih d hd (h.children d hd) _

/-! ## Offers -/

/-- What an offered entry does not touch. -/
theorem offerEntry_frame (n : Node) (e : String × String) : (n.offerEntry e).name = n.name
    ∧ (n.offerEntry e).path = n.path ∧ (n.offerEntry e).sections = n.sections := by
  unfold offerEntry
  split <;> exact ⟨rfl, rfl, rfl⟩

theorem offerChild_frame (n c : Node) : (n.offerChild c).name = n.name
    ∧ (n.offerChild c).path = n.path ∧ (n.offerChild c).entries = n.entries := by
  unfold offerChild
  split <;> exact ⟨rfl, rfl, rfl⟩

theorem offerEntries_frame (es : List (String × String)) (n : Node) :
    (es.foldl offerEntry n).name = n.name ∧ (es.foldl offerEntry n).path = n.path
      ∧ (es.foldl offerEntry n).sections = n.sections := by
  induction es generalizing n with
  | nil => exact ⟨rfl, rfl, rfl⟩
  | cons e rest ih =>
      obtain ⟨h1, h2, h3⟩ := offerEntry_frame n e
      obtain ⟨h1', h2', h3'⟩ := ih (n.offerEntry e)
      exact ⟨h1'.trans h1, h2'.trans h2, h3'.trans h3⟩

theorem offerChildren_frame (cs : List Node) (n : Node) :
    (cs.foldl offerChild n).name = n.name ∧ (cs.foldl offerChild n).path = n.path
      ∧ (cs.foldl offerChild n).entries = n.entries := by
  induction cs generalizing n with
  | nil => exact ⟨rfl, rfl, rfl⟩
  | cons c rest ih =>
      obtain ⟨h1, h2, h3⟩ := offerChild_frame n c
      obtain ⟨h1', h2', h3'⟩ := ih (n.offerChild c)
      exact ⟨h1'.trans h1, h2'.trans h2, h3'.trans h3⟩

/-- A section that is filled stays the section it is. -/
theorem name_fill (n t : Node) : (n.fill t).name = n.name :=
  (offerChildren_frame t.sections _).1.trans (offerEntries_frame t.entries n).1

theorem path_fill (n t : Node) : (n.fill t).path = n.path :=
  (offerChildren_frame t.sections _).2.1.trans (offerEntries_frame t.entries n).2.1

/-- The entries with a free name are added, the others are refused. -/
theorem offerEntries {es : List (String × String)} (h : n.Tidy)
    (hes : ∀ e ∈ es, IsKey e.1 ∧ IsValue e.2) (hnodup : (es.map Prod.fst).Nodup) :
    (es.foldl offerEntry n).Tidy
      ∧ (es.foldl offerEntry n).entries = n.entries ++ es.filter (·.1 ∉ n.names) := by
  induction es generalizing n with
  | nil => exact ⟨h, by simp⟩
  | cons e rest ih =>
      obtain ⟨hfirst, hrest⟩ := List.nodup_cons.mp hnodup
      rw [List.foldl_cons]
      have hofRest := fun d hd => hes d (List.mem_cons_of_mem e hd)
      by_cases htaken : e.1 ∈ n.names
      · have hstep : n.offerEntry e = n := if_pos ((hasName_iff h.toIndexed).mpr htaken)
        rw [hstep, List.filter_cons_of_neg (by simpa using htaken)]
        exact ih h hofRest hrest
      · have hstep : n.offerEntry e = n.addEntry e.1 e.2 :=
          if_neg fun hn => htaken ((hasName_iff h.toIndexed).mp hn)
        obtain ⟨hk, hv⟩ := hes e List.mem_cons_self
        obtain ⟨htidy, hent⟩ := ih (tidy_addEntry h htaken hk hv) hofRest hrest
        rw [hstep, List.filter_cons_of_pos (by simpa using htaken)]
        refine ⟨htidy, ?_⟩
        -- no later key is the one just added, so the same ones are refused as before
        have hsame : rest.filter (·.1 ∉ (n.addEntry e.1 e.2).names) = rest.filter (·.1 ∉ n.names) :=
          List.filter_congr fun d hd => by
            have hne : d.1 ≠ e.1 := fun he => hfirst (he ▸ List.mem_map_of_mem hd)
            simp [mem_names_addEntry, hne]
        rw [hent, hsame]
        simp [addEntry]

/-- The children with a free name are added below the section, the others are refused. -/
theorem offerChildren {cs : List Node} (h : n.Sound) (hcs : ∀ c ∈ cs, c.Sound ∧ IsName c.name)
    (hnodup : (cs.map Node.name).Nodup) :
    (cs.foldl offerChild n).Sound
      ∧ (cs.foldl offerChild n).sections
          = n.sections ++ (cs.filter (·.name ∉ n.names)).map (rebase n.path) := by
  induction cs generalizing n with
  | nil => exact ⟨h, by simp⟩
  | cons c rest ih =>
      obtain ⟨hfirst, hrest⟩ := List.nodup_cons.mp hnodup
      rw [List.foldl_cons]
      have hofRest := fun d hd => hcs d (List.mem_cons_of_mem c hd)
      by_cases htaken : c.name ∈ n.names
      · have hstep : n.offerChild c = n := if_pos ((hasName_iff h.indexed).mpr htaken)
        rw [hstep, List.filter_cons_of_neg (by simpa using htaken)]
        exact ih h hofRest hrest
      · have hstep : n.offerChild c = n.addChild (c.rebase n.path) :=
          if_neg fun hn => htaken ((hasName_iff h.indexed).mp hn)
        obtain ⟨hsound, hcname⟩ := hcs c List.mem_cons_self
        have hadd : (n.addChild (c.rebase n.path)).Sound := by
          refine sound_addChild h (sound_rebase hsound _) ?_ ?_ ?_
          · rwa [name_rebase]
          · rwa [name_rebase]
          · rw [path_rebase, name_rebase]
        obtain ⟨hall, hsec⟩ := ih hadd hofRest hrest
        rw [hstep, List.filter_cons_of_pos (by simpa using htaken)]
        refine ⟨hall, ?_⟩
        have hsame : rest.filter (·.name ∉ (n.addChild (c.rebase n.path)).names)
            = rest.filter (·.name ∉ n.names) := List.filter_congr fun d hd => by
          have hne : d.name ≠ c.name := fun he => hfirst (he ▸ List.mem_map_of_mem hd)
          simp [mem_names_addChild, name_rebase, hne]
        rw [hsec, hsame]
        simp [addChild]

/-- **What filling does**: all that is there stays as it is and where it is, and what the other
tree has under free names comes after it, in the order it has there. -/
theorem fill_spec (h : n.Sound) (ht : t.Sound) :
    (n.fill t).Sound
      ∧ (n.fill t).entries = n.entries ++ t.entries.filter (·.1 ∉ n.names)
      ∧ (n.fill t).sections
          = n.sections ++ (t.sections.filter (·.name ∉ n.names)).map (rebase n.path) := by
  obtain ⟨hkeys, hchildren, hapart⟩ := List.nodup_append.mp ht.indexed.nodup
  obtain ⟨-, hpath, hsec⟩ := offerEntries_frame t.entries n
  obtain ⟨htidy, hent⟩ := offerEntries h.tidy ht.tidy.entries hkeys
  have hmid : (t.entries.foldl offerEntry n).Sound := .intro htidy (hsec ▸ h.children)
  obtain ⟨hsound, hsec'⟩ := offerChildren hmid
    (fun c hc => ⟨ht.children c hc, (ht.tidy.sections c hc).1⟩) hchildren
  refine ⟨hsound, (offerChildren_frame t.sections _).2.2.trans hent, ?_⟩
  -- a child of the tree has none of the tree's keys for a name, so those do not stand in its way
  have hsame : t.sections.filter (·.name ∉ (t.entries.foldl offerEntry n).names)
      = t.sections.filter (·.name ∉ n.names) := List.filter_congr fun c hc => by
    have hkey : c.name ∉ t.keys := fun hk => hapart _ hk _ (List.mem_map_of_mem hc) rfl
    have hadded : c.name ∉ (t.entries.filter (·.1 ∉ n.names)).map Prod.fst := fun hm => by
      obtain ⟨e, he, hec⟩ := List.mem_map.mp hm
      exact hkey (hec ▸ List.mem_map_of_mem (List.mem_filter.mp he).1)
    have hiff : c.name ∈ (t.entries.foldl offerEntry n).names ↔ c.name ∈ n.names := by
      unfold names keys childNames
      rw [hent, hsec, List.map_append]
      simp only [List.mem_append]
      tauto
    simp [hiff]
  rw [fill, hsec', hsec, hpath, hsame]

/-- Filling takes no child away. -/
theorem child?_fill (h : n.Sound) (ht : t.Sound) (hc : n.child? x = some c) :
    (n.fill t).child? x = some c := by
  obtain ⟨hsound, -, hsec⟩ := fill_spec h ht
  obtain ⟨hmem, hname⟩ := (child?_eq_some_iff h.indexed).mp hc
  refine (child?_eq_some_iff hsound.indexed).mpr ⟨?_, hname⟩
  rw [hsec]
  exact List.mem_append_left _ hmem

end PacedNet.Config.Node
