import PacedNet.Proofs.Config.Tree

/-!
# Growing a section

A section grows when entries and then children are added to it, all at the end and
all under free names. An empty section that is given the entries and children of
another of its name and path becomes that other, index by index (`grow_empty`).

What is grown one piece at a time, each where it belongs in the tree, is grown at
once (`modifyAt_addChild`).
-/

namespace PacedNet.Config.Node

variable {n c d p : Node} {ps : List String} {es : List (String × String)} {cs : List Node}

def addEntries (n : Node) (es : List (String × String)) : Node :=
  es.foldl (fun m e => m.addEntry e.1 e.2) n

def addChildren (n : Node) (cs : List Node) : Node := cs.foldl addChild n

/-- Adds entries and then children. -/
def grow (n : Node) (es : List (String × String)) (cs : List Node) : Node :=
  (n.addEntries es).addChildren cs

theorem addEntries_frame (n : Node) (es : List (String × String)) :
    (n.addEntries es).name = n.name ∧ (n.addEntries es).path = n.path
      ∧ (n.addEntries es).entries = n.entries ++ es ∧ (n.addEntries es).sections = n.sections := by
  induction es generalizing n with
  | nil => exact ⟨rfl, rfl, by simp [addEntries], rfl⟩
  | cons e rest ih =>
      obtain ⟨h1, h2, h3, h4⟩ := ih (n.addEntry e.1 e.2)
      refine ⟨h1, h2, ?_, h4⟩
      show ((n.addEntry e.1 e.2).addEntries rest).entries = _
      rw [h3]
      simp [addEntry]

theorem addChildren_frame (n : Node) (cs : List Node) :
    (n.addChildren cs).name = n.name ∧ (n.addChildren cs).path = n.path
      ∧ (n.addChildren cs).entries = n.entries ∧ (n.addChildren cs).sections = n.sections ++ cs := by
  induction cs generalizing n with
  | nil => exact ⟨rfl, rfl, rfl, by simp [addChildren]⟩
  | cons c rest ih =>
      obtain ⟨h1, h2, h3, h4⟩ := ih (n.addChild c)
      refine ⟨h1, h2, h3, ?_⟩
      show ((n.addChild c).addChildren rest).sections = _
      rw [h4]
      simp [addChild]

theorem name_grow (n : Node) (es : List (String × String)) (cs : List Node) :
    (n.grow es cs).name = n.name :=
  (addChildren_frame _ cs).1.trans (addEntries_frame n es).1

theorem path_grow (n : Node) (es : List (String × String)) (cs : List Node) :
    (n.grow es cs).path = n.path :=
  (addChildren_frame _ cs).2.1.trans (addEntries_frame n es).2.1

theorem sound_addEntries (h : n.Sound) (hes : ∀ e ∈ es, IsKey e.1 ∧ IsValue e.2)
    (hfree : ∀ e ∈ es, e.1 ∉ n.names) (hnodup : (es.map Prod.fst).Nodup) :
    (n.addEntries es).Sound := by
  induction es generalizing n with
  | nil => exact h
  | cons e rest ih =>
      obtain ⟨hfirst, hrest⟩ := List.nodup_cons.mp hnodup
      obtain ⟨hk, hv⟩ := hes e List.mem_cons_self
      refine ih (sound_addEntry h (hfree e List.mem_cons_self) hk hv)
        (fun f hf => hes f (List.mem_cons_of_mem _ hf)) (fun f hf hm => ?_) hrest
      rcases mem_names_addEntry.mp hm with hm | hm
      · exact hfree f (List.mem_cons_of_mem _ hf) hm
      · exact hfirst (hm ▸ List.mem_map_of_mem hf)

theorem indexed_addChildren (h : n.Indexed) (hfree : ∀ c ∈ cs, c.name ∉ n.names)
    (hnodup : (cs.map name).Nodup) : (n.addChildren cs).Indexed := by
  induction cs generalizing n with
  | nil => exact h
  | cons c rest ih =>
      obtain ⟨hfirst, hrest⟩ := List.nodup_cons.mp hnodup
      refine ih (indexed_addChild h (hfree c List.mem_cons_self)) (fun d hd hm => ?_) hrest
      rcases mem_names_addChild.mp hm with hm | hm
      · exact hfree d (List.mem_cons_of_mem _ hd) hm
      · exact hfirst (hm ▸ List.mem_map_of_mem hd)

/-- In an indexed section the indexes say nothing that the rest does not. -/
theorem Indexed.ext (hc : c.Indexed) (hd : d.Indexed) (hname : c.name = d.name)
    (hpath : c.path = d.path) (hent : c.entries = d.entries) (hsec : c.sections = d.sections) :
    c = d := by
  have he : c.entryIndex = d.entryIndex := by
    rw [hc.entryIndex, hd.entryIndex]; unfold keys; rw [hent]
  have hs : c.sectionIndex = d.sectionIndex := by
    rw [hc.sectionIndex, hd.sectionIndex]; unfold childNames; rw [hsec]
  cases c
  cases d
  simp_all

/-- **An empty section grows into any that has its name and path.** -/
theorem grow_empty (hn : n.Sound) (hc : c.Sound) (hempty : n.entries = [] ∧ n.sections = [])
    (hname : n.name = c.name) (hpath : n.path = c.path) : n.grow c.entries c.sections = c := by
  obtain ⟨hent, hsec⟩ := hempty
  obtain ⟨hkeys, hchildren, hapart⟩ := List.nodup_append.mp hc.indexed.nodup
  obtain ⟨-, -, hent1, hsec1⟩ := addEntries_frame n c.entries
  obtain ⟨-, -, hent2, hsec2⟩ := addChildren_frame (n.addEntries c.entries) c.sections
  rw [hent, List.nil_append] at hent1
  -- all names of a sound section differ, so each piece is added under a free one
  have hfree : ∀ e ∈ c.entries, e.1 ∉ n.names := by simp [names, keys, childNames, hent, hsec]
  have hfree' : ∀ d ∈ c.sections, d.name ∉ (n.addEntries c.entries).names := by
    intro d hd hm
    have hm : d.name ∈ c.keys := by simpa [names, keys, childNames, hent1, hsec1, hsec] using hm
    exact hapart _ hm _ (List.mem_map_of_mem hd) rfl
  have hentries := sound_addEntries hn hc.tidy.entries hfree hkeys
  refine Indexed.ext (indexed_addChildren hentries.indexed hfree' hchildren) hc.indexed
    ((name_grow n _ _).trans hname) ((path_grow n _ _).trans hpath) ?_ ?_
  · exact hent2.trans hent1
  · exact hsec2.trans (by rw [hsec1, hsec, List.nil_append])

/-! ## Growing in place -/

theorem setChild_self (h : n.Indexed) {x : String} (hc : n.child? x = some c) :
    n.setChild c = n := by
  obtain ⟨-, before, after, hsec⟩ := exists_split h hc
  rw [setChild_of_split h hsec rfl]
  cases n
  exact congrArg (Node.mk _ _ _ _ · _) hsec.symm

/-- A change that changes nothing where it is made changes nothing. -/
theorem modifyAt_self {f : Node → Node} (h : Sound n) (hp : at? ps n = some p) (hf : f p = p) :
    modifyAt f ps n = n := by
  induction ps generalizing n with
  | nil => injection hp with hp; subst hp; exact hf
  | cons x ps ih =>
      obtain ⟨c, hc, hcp⟩ := at?_cons_eq_some hp
      rw [modifyAt_cons hc, ih (h.child hc).1 hcp, setChild_self h.indexed hc]

theorem sections_addChild (p c : Node) : (p.addChild c).sections = p.sections ++ c :: [] := rfl

theorem child?_addChild (h : p.Indexed) (hfree : c.name ∉ p.names) :
    (p.addChild c).child? c.name = some c :=
  child?_of_split (indexed_addChild h hfree) (sections_addChild p c)

/-- A child that is added and then changed could have been changed before. -/
theorem modifyAt_addChild {f : Node → Node} (h : Sound n) (hf : ∀ m, (f m).name = m.name)
    (hp : at? ps n = some p) (hfree : c.name ∉ p.names) :
    modifyAt f (ps ++ [c.name]) (modifyAt (·.addChild c) ps n)
      = modifyAt (·.addChild (f c)) ps n := by
  have hpi := (h.at? hp).indexed
  rw [modifyAt_append, modifyAt_modifyAt h (g := (·.addChild c)) (name_modifyAt hf _)
    (fun _ => rfl) hp]
  refine modifyAt_congr hp ?_
  show (p.addChild c).modifyAt f [c.name] = _
  rw [modifyAt_cons (child?_addChild hpi hfree)]
  show (p.addChild c).setChild (f c) = _
  rw [setChild_of_split (indexed_addChild hpi hfree) (sections_addChild p c) (hf c)]
  simp [addChild, hf]

/-- A section that is opened under a free name is one more child. -/
theorem openAt_free (h : Sound n) (hp : at? ps n = some p) {x : String} (hfree : x ∉ p.names) :
    openAt (ps ++ [x]) n = .ok (modifyAt (·.addChild (emptyBelow p.path x)) ps n) := by
  have hpi := (h.at? hp).indexed
  have hchild : x ∉ p.childNames := fun hm => hfree (List.mem_append_right _ hm)
  rw [openAt_concat h hp fun hm => hfree (List.mem_append_left _ hm), modifyAt_append]
  refine congrArg _ (modifyAt_congr hp ?_)
  show p.setChild (p.childOrNew x) = _
  rw [childOrNew_of_none (child?_eq_none hpi hchild)]
  exact setChild_of_free hpi hchild

end PacedNet.Config.Node
