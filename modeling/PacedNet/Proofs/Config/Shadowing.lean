import PacedNet.Proofs.Config.Declaring
import PacedNet.Proofs.Config.Including

/-!
# What includes bring, and what shadows it

A section keeps every name that its text defines. Any other name comes from the
first of the section's inclusions that leads to a tree with that name, as a key or
as a section, and it comes whole: no tree adds to a subtree of another or of the
text. What comes stands after what is there, in the order of the inclusions.

`Merged` says so of a tree into which some inclusions have been merged, section by
section. One more keeps it so (`merged_concat`): in the section it stands in it is the
last to bring anything, above that section one child of the text is changed in its
place, and everywhere else nothing happens.
-/

namespace PacedNet.Config

namespace Node

/-! ## What trees bring -/

/-- The entries that trees bring to a section where some names are taken. -/
def broughtEntries : List String → List Node → List (String × String)
  | _, [] => []
  | taken, t :: rest =>
    t.entries.filter (·.1 ∉ taken) ++ broughtEntries (taken ++ t.names) rest

/-- The children that trees bring to a section where some names are taken. -/
def broughtSections : List String → List Node → List Node
  | _, [] => []
  | taken, t :: rest =>
    t.sections.filter (·.name ∉ taken) ++ broughtSections (taken ++ t.names) rest

variable {b c n t : Node} {ts : List Node} {taken : List String} {x value : String}

theorem broughtEntries_concat (taken : List String) (ts : List Node) (t : Node) :
    broughtEntries taken (ts ++ [t])
      = broughtEntries taken ts ++ t.entries.filter (·.1 ∉ taken ++ ts.flatMap names) := by
  induction ts generalizing taken with
  | nil => simp [broughtEntries]
  | cons u rest ih => simp [broughtEntries, ih]

theorem broughtSections_concat (taken : List String) (ts : List Node) (t : Node) :
    broughtSections taken (ts ++ [t])
      = broughtSections taken ts ++ t.sections.filter (·.name ∉ taken ++ ts.flatMap names) := by
  induction ts generalizing taken with
  | nil => simp [broughtSections]
  | cons u rest ih => simp [broughtSections, ih]

/-- The first tree that has a name at its root. -/
def firstWith (x : String) (ts : List Node) : Option Node := ts.find? (x ∈ ·.names)

theorem firstWith_cons_of_mem (hx : x ∈ t.names) : firstWith x (t :: ts) = some t :=
  List.find?_cons_of_pos (by simpa using hx)

theorem firstWith_cons_of_not_mem (hx : x ∉ t.names) : firstWith x (t :: ts) = firstWith x ts :=
  List.find?_cons_of_neg (by simpa using hx)

/-- No entry is brought under a taken name. -/
theorem not_mem_broughtEntries (hx : x ∈ taken) : (x, value) ∉ broughtEntries taken ts := by
  induction ts generalizing taken with
  | nil => simp [broughtEntries]
  | cons t rest ih =>
      rw [broughtEntries, List.mem_append, not_or]
      exact ⟨by simp [hx], ih (List.mem_append_left _ hx)⟩

theorem not_mem_broughtSections (hx : c.name ∈ taken) : c ∉ broughtSections taken ts := by
  induction ts generalizing taken with
  | nil => simp [broughtSections]
  | cons t rest ih =>
      rw [broughtSections, List.mem_append, not_or]
      exact ⟨by simp [hx], ih (List.mem_append_left _ hx)⟩

/-- An entry is brought by the first tree that has its name, and by no other. -/
theorem mem_broughtEntries (hx : x ∉ taken) : (x, value) ∈ broughtEntries taken ts
    ↔ ∃ t, firstWith x ts = some t ∧ (x, value) ∈ t.entries := by
  induction ts generalizing taken with
  | nil => simp [broughtEntries, firstWith]
  | cons t rest ih =>
      rw [broughtEntries, List.mem_append]
      by_cases hmem : x ∈ t.names
      · -- the first tree has the name, which is taken for those after it
        have hlater : (x, value) ∉ broughtEntries (taken ++ t.names) rest :=
          not_mem_broughtEntries (List.mem_append_right taken hmem)
        simp [firstWith_cons_of_mem hmem, hlater, hx]
      · have hnot : (x, value) ∉ t.entries := fun hm =>
          hmem (List.mem_append_left _ (List.mem_map_of_mem hm))
        rw [ih (by simp [hx, hmem]), firstWith_cons_of_not_mem hmem]
        simp [hnot]

/-- A child is brought by the first tree that has its name, and by no other. -/
theorem mem_broughtSections (hx : c.name ∉ taken) : c ∈ broughtSections taken ts
    ↔ ∃ t, firstWith c.name ts = some t ∧ c ∈ t.sections := by
  induction ts generalizing taken with
  | nil => simp [broughtSections, firstWith]
  | cons t rest ih =>
      rw [broughtSections, List.mem_append]
      by_cases hmem : c.name ∈ t.names
      · have hlater : c ∉ broughtSections (taken ++ t.names) rest :=
          not_mem_broughtSections (List.mem_append_right taken hmem)
        simp [firstWith_cons_of_mem hmem, hlater, hx]
      · have hnot : c ∉ t.sections := fun hm =>
          hmem (List.mem_append_right _ (List.mem_map_of_mem hm))
        rw [ih (by simp [hx, hmem]), firstWith_cons_of_not_mem hmem]
        simp [hnot]

theorem mem_of_broughtSections (h : c ∈ broughtSections taken ts) : ∃ t ∈ ts, c ∈ t.sections := by
  by_cases hx : c.name ∈ taken
  · exact absurd h (not_mem_broughtSections hx)
  · obtain ⟨t, ht, hc⟩ := (mem_broughtSections hx).mp h
    exact ⟨t, List.mem_of_find?_eq_some ht, hc⟩

/-! ## Sections that are filled -/

/-- A section `n` has what `b` has, with its own children maybe filled further down, and then what
the trees bring. -/
structure FilledFrom (b : Node) (ts : List Node) (n : Node) : Prop where
  entries : n.entries = b.entries ++ broughtEntries b.names ts
  sections : ∃ own, n.sections = own ++ (broughtSections b.names ts).map (rebase n.path)
    ∧ own.map name = b.childNames

/-- What is taken in a filled section: the names it had and those of the trees. -/
theorem FilledFrom.mem_names (h : FilledFrom b ts n) :
    x ∈ n.names ↔ x ∈ b.names ++ ts.flatMap names := by
  obtain ⟨own, hsec, hown⟩ := h.sections
  have hkeys : n.keys = b.keys ++ (broughtEntries b.names ts).map Prod.fst := by
    unfold keys
    rw [h.entries, List.map_append]
  have hchildren : n.childNames = b.childNames ++ (broughtSections b.names ts).map name := by
    unfold childNames
    rw [hsec, List.map_append, hown, List.map_map]
    exact congrArg _ (List.map_congr_left fun c _ => name_rebase _ c)
  by_cases hx : x ∈ b.names
  · have : x ∈ n.names := by
      unfold names at hx ⊢
      rw [hkeys, hchildren]
      simp only [List.mem_append] at hx ⊢
      tauto
    simp [this, hx]
  · have hbrought : x ∈ n.names ↔ x ∈ (broughtEntries b.names ts).map Prod.fst
        ∨ x ∈ (broughtSections b.names ts).map name := by
      unfold names at hx ⊢
      rw [hkeys, hchildren]
      simp only [List.mem_append] at hx ⊢
      tauto
    have hfirst : x ∈ ts.flatMap names ↔ ∃ t, firstWith x ts = some t := by
      rw [← Option.isSome_iff_exists, firstWith, List.find?_isSome, List.mem_flatMap]
      simp
    -- what is brought has exactly the names that some tree is the first to have
    rw [hbrought, List.mem_append, or_iff_right hx, hfirst]
    constructor
    · rintro (hm | hm)
      · obtain ⟨⟨y, v⟩, he, rfl⟩ := List.mem_map.mp hm
        obtain ⟨t, ht, -⟩ := (mem_broughtEntries hx).mp he
        exact ⟨t, ht⟩
      · obtain ⟨c, hc, rfl⟩ := List.mem_map.mp hm
        obtain ⟨t, ht, -⟩ := (mem_broughtSections hx).mp hc
        exact ⟨t, ht⟩
    · rintro ⟨t, ht⟩
      have hxt : x ∈ t.names := by simpa using List.find?_some ht
      rcases List.mem_append.mp hxt with hm | hm
      · obtain ⟨⟨y, v⟩, he, rfl⟩ := List.mem_map.mp hm
        exact Or.inl (List.mem_map_of_mem ((mem_broughtEntries hx).mpr ⟨t, ht, he⟩))
      · obtain ⟨c, hc, rfl⟩ := List.mem_map.mp hm
        exact Or.inr (List.mem_map_of_mem ((mem_broughtSections hx).mpr ⟨t, ht, hc⟩))

/-- One more tree is the last to bring anything. -/
theorem FilledFrom.fill (h : FilledFrom b ts n) (hn : n.Sound) (ht : t.Sound) :
    FilledFrom b (ts ++ [t]) (n.fill t) := by
  obtain ⟨-, hent, hsec⟩ := fill_spec hn ht
  obtain ⟨own, hown, hnames⟩ := h.sections
  have hentries : t.entries.filter (·.1 ∉ n.names)
      = t.entries.filter (·.1 ∉ b.names ++ ts.flatMap names) :=
    List.filter_congr fun e _ => by simp only [h.mem_names]
  have hsections : t.sections.filter (·.name ∉ n.names)
      = t.sections.filter (·.name ∉ b.names ++ ts.flatMap names) :=
    List.filter_congr fun c _ => by simp only [h.mem_names]
  refine ⟨?_, own, ?_, hnames⟩
  · rw [hent, h.entries, hentries, broughtEntries_concat, List.append_assoc]
  · rw [hsec, hown, hsections, path_fill, broughtSections_concat, List.map_append,
      List.append_assoc]

/-- A change inside a child of its own leaves a section filled as it was. -/
theorem FilledFrom.modifyAt {f : Node → Node} {ps : List String} (h : FilledFrom b ts n)
    (hn : n.Sound) (hf : ∀ m, (f m).name = m.name) (hx : x ∈ b.childNames)
    (hc : n.child? x = some c) : FilledFrom b ts (n.modifyAt f (x :: ps)) := by
  obtain ⟨own, hsec, hnames⟩ := h.sections
  -- the child of that name is one of the section's own
  rw [← hnames] at hx
  obtain ⟨d, hd, rfl⟩ := List.mem_map.mp hx
  obtain ⟨before, after, rfl⟩ := List.append_of_mem hd
  rw [List.append_assoc, List.cons_append] at hsec
  have hcd : c = d := by
    rw [child?_of_split hn.indexed hsec] at hc
    exact (Option.some.inj hc).symm
  subst hcd
  have hname := name_modifyAt hf ps c
  have hset := setChild_of_split hn.indexed hsec hname
  rw [modifyAt_cons hc, hset]
  exact ⟨h.entries, before ++ c.modifyAt f ps :: after, by simp, by simpa [hname] using hnames⟩

end Node

/-! ## Merging one inclusion after the other -/

/-- The trees of the inclusions that stand in a section. -/
def treesAt (ps : List String) (done : List (Inclusion × Node)) : List Node :=
  done.filterMap fun p => if p.1.scope = ps then some p.2 else none

/-- A tree into which some inclusions of a source have been merged. -/
structure Merged (base : Node) (done : List (Inclusion × Node)) (root : Node) : Prop where
  rooted : root.Rooted
  filled : ∀ ps b, base.at? ps = some b →
    ∃ n, root.at? ps = some n ∧ Node.FilledFrom b (treesAt ps done) n

variable {base root tree : Node} {done : List (Inclusion × Node)} {i : Inclusion}

theorem merged_nil (h : base.Rooted) : Merged base [] base := by
  refine ⟨h, fun ps b hb => ⟨b, hb, ?_, b.sections, ?_, rfl⟩⟩
  · simp [treesAt, Node.broughtEntries]
  · simp [treesAt, Node.broughtSections]

/-- **One more inclusion** brings what is still missing to its section, and nothing elsewhere. -/
theorem merged_concat (hb : base.Sound) (h : Merged base done root) (ht : tree.Sound)
    (hi : base.Holds i.scope) :
    Merged base (done ++ [(i, tree)]) (root.modifyAt (·.fill tree) i.scope) := by
  obtain ⟨bq, hbq⟩ := hi
  obtain ⟨nq, hnq, hfilled⟩ := h.filled _ bq hbq
  have hroot := h.rooted.sound
  have hnqs := hroot.at? hnq
  refine ⟨(Library.rooted_fillAt h.rooted ⟨nq, hnq⟩ ht).1, fun ps b hpsb => ?_⟩
  obtain ⟨n, hn, hfn⟩ := h.filled ps b hpsb
  by_cases hps : i.scope = ps
  · -- the section of the inclusion
    subst hps
    rw [hbq] at hpsb
    injection hpsb with hpsb
    subst hpsb
    have htrees : treesAt i.scope (done ++ [(i, tree)]) = treesAt i.scope done ++ [tree] := by
      simp [treesAt]
    rw [htrees]
    exact ⟨_, Node.at?_modifyAt hroot (Node.name_fill · tree) hnq, hfilled.fill hnqs ht⟩
  · have htrees : treesAt ps (done ++ [(i, tree)]) = treesAt ps done := by
      simp [treesAt, hps]
    rw [htrees]
    by_cases hpre : ps <+: i.scope
    · -- a section above: the change is made in one of its own children
      obtain ⟨rest, hrest⟩ := hpre
      cases rest with
      | nil => exact absurd (by simpa using hrest.symm) hps
      | cons x rest =>
          rw [← hrest, Node.at?_append, hpsb] at hbq
          rw [← hrest, Node.at?_append, hn] at hnq
          obtain ⟨d, hd, -⟩ := Node.at?_cons_eq_some hbq
          obtain ⟨c, hc, -⟩ := Node.at?_cons_eq_some hnq
          have hx : x ∈ b.childNames := by
            obtain ⟨hmem, rfl⟩ := (Node.child?_eq_some_iff (hb.at? hpsb).indexed).mp hd
            exact List.mem_map_of_mem hmem
          rw [← hrest, Node.modifyAt_append]
          exact ⟨_, Node.at?_modifyAt hroot (Node.name_modifyAt (Node.name_fill · tree) _) hn,
            hfn.modifyAt (hroot.at? hn) (Node.name_fill · tree) hx hc⟩
    · -- a section apart or below, which is not touched
      exact ⟨n, Node.at?_modifyAt_frame hroot (Node.name_fill · tree) hnq
        (fun x c hc => Node.child?_fill hnqs ht hc) hpre hn, hfn⟩

/-- All inclusions, one after the other. -/
theorem merged_foldl {todo : List (Inclusion × Node)} (hb : base.Sound) (h : Merged base done root)
    (htodo : ∀ p ∈ todo, base.Holds p.1.scope ∧ p.2.Sound) :
    Merged base (done ++ todo)
      (todo.foldl (fun root (i, tree) => root.modifyAt (·.fill tree) i.scope) root) := by
  induction todo generalizing done root with
  | nil => simpa using h
  | cons p rest ih =>
      obtain ⟨hscope, htree⟩ := htodo p List.mem_cons_self
      have hnext := ih (merged_concat hb h htree hscope)
        fun q hq => htodo q (List.mem_cons_of_mem _ hq)
      simpa using hnext

/-! ## Subtrees below another path -/

namespace Node

mutual

/-- The same subtree with all its paths changed. -/
def mapPaths (f : String → String) : Node → Node
  | ⟨name, path, entries, entryIndex, sections, sectionIndex⟩ =>
    ⟨name, f path, entries, entryIndex, mapPathsAll f sections, sectionIndex⟩

def mapPathsAll (f : String → String) : List Node → List Node
  | [] => []
  | n :: rest => mapPaths f n :: mapPathsAll f rest

end

/-- The same subtree with a path before each of its paths. -/
def prefixed (path : String) (n : Node) : Node := n.mapPaths (extend path)

theorem mapPathsAll_eq_map (f : String → String) (l : List Node) :
    mapPathsAll f l = l.map (mapPaths f) := by
  induction l with
  | nil => rfl
  | cons n rest ih => rw [mapPathsAll, ih, List.map_cons]

theorem mapPaths_eq (f : String → String) (n : Node) :
    n.mapPaths f = { n with path := f n.path, sections := n.sections.map (mapPaths f) } := by
  cases n
  rw [mapPaths, mapPathsAll_eq_map]

theorem extend_extend {p : String} (hp : p ≠ "") (path x : String) :
    extend path (extend p x) = extend (extend path p) x := by
  have hpe : p.isEmpty = false := by simpa using hp
  unfold extend
  rw [hpe]
  by_cases hpath : path.isEmpty = true
  · simp [hpath, hpe]
  · simp [hpath, String.append_assoc]

variable {n : Node}

/-- Moving a sound subtree puts the same path before each of its paths. -/
theorem rebase_eq_mapPaths (h : n.Sound) (hne : n.path ≠ "") {path below : String}
    (hbelow : extend below n.name = extend path n.path) :
    n.rebase below = n.mapPaths (extend path) := by
  induction n using induct generalizing below with
  | step n ih =>
      rw [rebase_eq, mapPaths_eq, hbelow]
      congr 1
      refine List.map_congr_left fun c hc => ?_
      obtain ⟨hname, hcp⟩ := h.tidy.sections c hc
      -- a child's path extends its parent's, before as after
      refine ih c hc (h.children c hc) ?_ ?_
      · rw [hcp]
        unfold extend
        split
        · exact hname.nonempty
        · simp [hne]
      · rw [hcp, extend_extend hne]

/-- A section that comes from the root of another tree comes prefixed. -/
theorem rebase_eq_prefixed {t c : Node} (ht : t.Rooted) (hc : c ∈ t.sections) (path : String) :
    c.rebase path = c.prefixed path := by
  obtain ⟨hname, hpath⟩ := ht.sound.tidy.sections c hc
  have hcp : c.path = c.name := by rw [hpath, ht.path]; rfl
  exact rebase_eq_mapPaths (ht.sound.children c hc) (by rw [hcp]; exact hname.nonempty)
    (by rw [hcp])

end Node

/-! ## How names are resolved -/

/-- What every name means in a section `n` at `ps`, given the trees of its inclusions. -/
structure Resolved (l : Library) (rs : List Line) (root : Node) (ps : List String) (n : Node)
    (trees : List Node) : Prop where
  /-- Each tree is what the source of its name is read as by itself. -/
  led : List.Forall₂ (fun name tree => l.parseSource name = .ok tree) (localInclusions rs ps) trees
  path : n.path = ".".intercalate ps
  /-- The text's entries in its order, then those the inclusions bring in theirs. -/
  entries : n.entries = localEntries rs ps ++ Node.broughtEntries (localNames rs ps) trees
  /-- Likewise the children; those brought are whole, below the section's path. -/
  sections : ∃ own, n.sections
      = own ++ (Node.broughtSections (localNames rs ps) trees).map (Node.prefixed n.path)
    ∧ own.map Node.name = localSections rs ps
  /-- A name of the text has its value in the text, if it has any. -/
  ownValue : ∀ x ∈ localNames rs ps, ∀ v, n.value? x = some v ↔ (x, v) ∈ localEntries rs ps
  /-- A name of the text is a child if the text has a section there, which is resolved likewise. -/
  ownChild : ∀ x ∈ localNames rs ps, ∀ c,
    n.child? x = some c ↔ Opens rs (ps ++ [x]) ∧ root.at? (ps ++ [x]) = some c
  /-- Any other name has the value it has in the first tree that has the name. -/
  broughtValue : ∀ x ∉ localNames rs ps, ∀ v,
    n.value? x = some v ↔ ∃ t, Node.firstWith x trees = some t ∧ t.value? x = some v
  /-- Any other name is the child that it is there. -/
  broughtChild : ∀ x ∉ localNames rs ps, ∀ c,
    n.child? x = some c
      ↔ ∃ t d, Node.firstWith x trees = some t ∧ t.child? x = some d ∧ c = d.prefixed n.path

/-- The trees of a section's inclusions, of all that were followed. -/
theorem forall₂_treesAt {l : Library} {inclusions : List Inclusion} {trees : List Node}
    (h : List.Forall₂ (fun i tree => l.parseSource i.name = .ok tree) inclusions trees)
    (ps : List String) :
    List.Forall₂ (fun name tree => l.parseSource name = .ok tree)
      (inclusions.filterMap fun i => if i.scope = ps then some i.name else none)
      (treesAt ps (inclusions.zip trees)) := by
  induction h with
  | nil => exact .nil
  | @cons i tree _ _ htree _ ih =>
      by_cases hi : i.scope = ps
      · simpa [treesAt, hi] using ⟨htree, ih⟩
      · simpa [treesAt, hi] using ih

theorem rooted_of_forall₂ {l : Library} {names : List String} {trees : List Node}
    (h : List.Forall₂ (fun name tree => l.parseSource name = .ok tree) names trees) :
    ∀ t ∈ trees, t.Rooted := by
  induction h with
  | nil => simp
  | cons htree _ ih =>
      intro t ht
      rcases List.mem_cons.mp ht with rfl | ht
      · exact Library.parseSource_rooted htree
      · exact ih t ht

namespace Node

variable {n c : Node} {own ts : List Node} {es : List (String × String)} {taken : List String}
  {x value : String}

theorem name_prefixed (path : String) (c : Node) : (c.prefixed path).name = c.name := by
  rw [prefixed, mapPaths_eq]

/-- What rooted trees bring comes prefixed with the path of the section it comes to. -/
theorem map_rebase_broughtSections (hts : ∀ t ∈ ts, t.Rooted) (path : String) :
    (broughtSections taken ts).map (rebase path) = (broughtSections taken ts).map (prefixed path) := by
  refine List.map_congr_left fun c hc => ?_
  obtain ⟨t, ht, hct⟩ := mem_of_broughtSections hc
  exact rebase_eq_prefixed (hts t ht) hct path

theorem value?_of_mem (hn : n.Indexed) (hent : n.entries = es ++ broughtEntries taken ts)
    (hx : x ∈ taken) : n.value? x = some value ↔ (x, value) ∈ es := by
  have hnone : (x, value) ∉ broughtEntries taken ts := not_mem_broughtEntries hx
  rw [value?_eq_some_iff hn, hent, List.mem_append]
  exact or_iff_left hnone

theorem value?_of_not_mem (hn : n.Indexed) (hts : ∀ t ∈ ts, t.Rooted)
    (hent : n.entries = es ++ broughtEntries taken ts) (hes : (x, value) ∉ es) (hx : x ∉ taken) :
    n.value? x = some value ↔ ∃ t, firstWith x ts = some t ∧ t.value? x = some value := by
  rw [value?_eq_some_iff hn, hent, List.mem_append, or_iff_right hes, mem_broughtEntries hx]
  refine exists_congr fun t => and_congr_right fun ht => ?_
  have hti := (hts t (List.mem_of_find?_eq_some ht)).sound.indexed
  rw [value?_eq_some_iff hti]

theorem child?_of_mem (hn : n.Indexed)
    (hsec : n.sections = own ++ (broughtSections taken ts).map (prefixed n.path)) (hx : x ∈ taken) :
    n.child? x = some c ↔ x ∈ own.map name ∧ n.child? x = some c := by
  refine ⟨fun hchild => ⟨?_, hchild⟩, fun h => h.2⟩
  obtain ⟨hc, rfl⟩ := (child?_eq_some_iff hn).mp hchild
  rw [hsec] at hc
  rcases List.mem_append.mp hc with hc | hc
  · exact List.mem_map_of_mem hc
  · -- what is brought has a name that is not taken
    obtain ⟨d, hd, rfl⟩ := List.mem_map.mp hc
    rw [name_prefixed] at hx
    exact absurd hd (not_mem_broughtSections hx)

theorem child?_of_not_mem (hn : n.Indexed) (hts : ∀ t ∈ ts, t.Rooted)
    (hsec : n.sections = own ++ (broughtSections taken ts).map (prefixed n.path))
    (hown : x ∉ own.map name) (hx : x ∉ taken) : n.child? x = some c
      ↔ ∃ t d, firstWith x ts = some t ∧ t.child? x = some d ∧ c = d.prefixed n.path := by
  rw [child?_eq_some_iff hn, hsec, List.mem_append]
  constructor
  · rintro ⟨hc | hc, rfl⟩
    · exact absurd (List.mem_map_of_mem hc) hown
    · obtain ⟨d, hd, rfl⟩ := List.mem_map.mp hc
      rw [name_prefixed] at hx ⊢
      obtain ⟨t, ht, hdt⟩ := (mem_broughtSections hx).mp hd
      have hti := (hts t (List.mem_of_find?_eq_some ht)).sound.indexed
      exact ⟨t, d, ht, (child?_eq_some_iff hti).mpr ⟨hdt, rfl⟩, rfl⟩
  · rintro ⟨t, d, ht, hdt, rfl⟩
    have hti := (hts t (List.mem_of_find?_eq_some ht)).sound.indexed
    obtain ⟨hmem, rfl⟩ := (child?_eq_some_iff hti).mp hdt
    have hbrought : d ∈ broughtSections taken ts := (mem_broughtSections hx).mpr ⟨t, ht, hmem⟩
    exact ⟨Or.inr (List.mem_map_of_mem hbrought), name_prefixed _ d⟩

end Node

/-- A section that is filled from its own text's is resolved. -/
theorem resolved_of_filled {l : Library} {rs : List Line} {root b n : Node} {ps : List String}
    {trees : List Node} (hroot : root.Rooted) (hn : root.at? ps = some n)
    (hb : b.entries = localEntries rs ps ∧ b.childNames = localSections rs ps)
    (hfilled : Node.FilledFrom b trees n)
    (hled : List.Forall₂ (fun name tree => l.parseSource name = .ok tree)
      (localInclusions rs ps) trees) : Resolved l rs root ps n trees := by
  have hindexed := (hroot.sound.at? hn).indexed
  have hrooted := rooted_of_forall₂ hled
  have hnames : b.names = localNames rs ps := by
    unfold Node.names Node.keys localNames
    rw [hb.1, hb.2]
  have hent := hfilled.entries
  obtain ⟨own, hsec, hown⟩ := hfilled.sections
  rw [hb.1, hnames] at hent
  rw [hnames, Node.map_rebase_broughtSections hrooted] at hsec
  rw [hb.2] at hown
  refine ⟨hled, ?_, hent, ⟨own, hsec, hown⟩, ?_, ?_, ?_, ?_⟩
  · have hempty : root.path = ".".intercalate [] := hroot.path
    exact hroot.sound.path_at? (by simp) hempty hn
  · intro x hx v
    exact Node.value?_of_mem hindexed hent hx
  · intro x hx c
    rw [Node.at?_concat hn, ← mem_localSections, ← hown]
    exact Node.child?_of_mem hindexed hsec hx
  · intro x hx v
    have hlocal : (x, v) ∉ localEntries rs ps := by
      intro hm
      exact hx (List.mem_append_left _ (List.mem_map_of_mem hm))
    exact Node.value?_of_not_mem hindexed hrooted hent hlocal hx
  · intro x hx c
    have hlocal : x ∉ own.map Node.name := by
      intro hm
      exact hx (List.mem_append_right _ (hown ▸ hm))
    exact Node.child?_of_not_mem hindexed hrooted hsec hlocal hx

/-- **Every section of a text that can be read is resolved**: its own names first, and then those
of its inclusions, each name by the first that has it. -/
theorem Library.parseText_resolved {l : Library} {text : String} {root : Node}
    (h : l.parseText text = .ok root) :
    ∃ rs, records text = .ok rs ∧ ∀ ps, Opens rs ps →
      ∃ n trees, root.at? ps = some n ∧ Resolved l rs root ps n trees := by
  obtain ⟨own, trees, hown, htrees, rfl⟩ := Library.parseText_eq_ok h
  have hs := scan_sound hown
  obtain ⟨rs, hrs, hinc, hdeclares⟩ := scan_declares hown
  refine ⟨rs, hrs, fun ps hps => ?_⟩
  have htodo : ∀ p ∈ own.inclusions.zip trees, own.root.Holds p.1.scope ∧ p.2.Sound :=
    fun p hp => ⟨hs.scopes _ (List.of_mem_zip hp).1,
      (Library.parseSource_rooted ((List.forall₂_iff_zip.mp htrees).2 hp)).sound⟩
  have hmerged := merged_foldl hs.rooted.sound (merged_nil hs.rooted) htodo
  rw [List.nil_append] at hmerged
  obtain ⟨b, hb, hent, hsec⟩ := hdeclares ps hps
  obtain ⟨n, hn, hfilled⟩ := hmerged.filled ps b hb
  have hled := forall₂_treesAt htrees ps
  rw [hinc] at hled
  exact ⟨n, _, hn, resolved_of_filled hmerged.rooted hn ⟨hent, hsec⟩ hfilled hled⟩

/-- A key that hides a section, a section that hides a key, and one source before another. -/
theorem Library.parseText_resolved_twice : ∃ root,
    ((empty.register "a" "k = a\n[s]\nx = a\n[t.u]\ny = a").register "b"
        "t = b\nz = b\n[k]").parseText "[p]\n@include a\n@include b\ns = own\n[p.q]\nk = own" = .ok root
      ∧ root.lines = ["", "[p]", "s = own", "k = a", "z = b", "", "[p.q]", "k = own", "", "[p.t]", "",
        "[p.t.u]", "y = a"]
      ∧ ∃ rs, records "[p]\n@include a\n@include b\ns = own\n[p.q]\nk = own" = .ok rs
        ∧ ∀ ps, Opens rs ps → ∃ n trees, root.at? ps = some n
          ∧ Resolved ((empty.register "a" "k = a\n[s]\nx = a\n[t.u]\ny = a").register "b"
            "t = b\nz = b\n[k]") rs root ps n trees := by
  have hlines : (((empty.register "a" "k = a\n[s]\nx = a\n[t.u]\ny = a").register "b"
      "t = b\nz = b\n[k]").parseText
        "[p]\n@include a\n@include b\ns = own\n[p.q]\nk = own").toOption.map Node.lines
      = some ["", "[p]", "s = own", "k = a", "z = b", "", "[p.q]", "k = own", "", "[p.t]", "",
        "[p.t.u]", "y = a"] := by decide +kernel
  obtain ⟨root, hroot, hlines⟩ := Option.map_eq_some_iff.mp hlines
  have hread := eq_ok_of_toOption hroot
  exact ⟨root, hread, hlines, parseText_resolved hread⟩

end PacedNet.Config
