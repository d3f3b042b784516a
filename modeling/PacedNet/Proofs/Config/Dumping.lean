import PacedNet.Proofs.Config.Growing
import PacedNet.Proofs.Config.Including

/-!
# A dump reads back

A dump writes a tree as headings and entries, each section under its full path. It
is read back in three steps.

* Its lines are the lines that were written (`textLines_dump`).
* They read as the records that were meant (`says_body`, `mapM_read`): names, keys and
  values are well shaped, and a section's path is the list of names that leads to it.
* Applied to a tree that has nothing there yet, the records of a section add that
  section and nothing else (`fedByBody`). The heading of a section bars no other,
  since no two sections share a list of names.
-/

namespace PacedNet.Config

/-! ## The lines of a dump -/

/-- Lines that are each ended by a line feed are read as they were. -/
theorem textLines_flatMap {lines : List (List Char)} (h : ∀ line ∈ lines, '\n' ∉ line) :
    textLines (lines.flatMap (· ++ ['\n'])) = lines := by
  have hsplit : (lines.flatMap (· ++ ['\n'])).splitOn '\n' = lines ++ [[]] := by
    induction lines with
    | nil => rfl
    | cons line rest ih =>
        -- a line without a line feed ends at the first one
        rw [List.flatMap_cons, List.append_assoc, List.singleton_append,
          List.splitOn_append_cons_self_of_not_mem (h line List.mem_cons_self),
          ih fun m hm => h m (List.mem_cons_of_mem _ hm), List.cons_append]
  unfold textLines
  dsimp only
  rw [hsplit, if_pos List.getLast?_concat, List.dropLast_concat]

namespace Node

variable {n c d p : Node} {ps : List String} {s : Scan}

theorem textLines_dump (h : ∀ line ∈ n.lines, '\n' ∉ line.toList) :
    textLines n.dump.toList = n.lines.map String.toList := by
  have htext : n.dump.toList = (n.lines.map String.toList).flatMap (· ++ ['\n']) := by
    unfold dump
    rw [String.toList_join, List.flatMap_map, List.flatMap_map]
    refine List.flatMap_congr fun line _ => ?_
    rw [String.toList_append]
    rfl
  rw [htext]
  refine textLines_flatMap fun line hline => ?_
  obtain ⟨text, htext, rfl⟩ := List.mem_map.mp hline
  exact h text htext

mutual

/-- What the lines of a section say, its own heading left out. -/
def body (ps : List String) : Node → List Line
  | ⟨_, _, entries, _, sections, _⟩ =>
    entries.map (fun e => .entry e.1 e.2) ++ bodyAll ps sections

def bodyAll (ps : List String) : List Node → List Line
  | [] => []
  | n :: rest => .blank :: .heading (ps ++ [n.name]) :: body (ps ++ [n.name]) n ++ bodyAll ps rest

end

theorem body_eq (ps : List String) (n : Node) :
    n.body ps = n.entries.map (fun e => .entry e.1 e.2) ++ bodyAll ps n.sections := by
  cases n
  rw [body]

/-! ## What the lines say -/

/-- A line of a dump and what it is there to say. -/
structure Says (line : String) (r : Line) : Prop where
  noFeed : '\n' ∉ line.toList
  read : Line.read line.toList = .ok r

theorem says_blank : Says "" .blank := ⟨by simp, read_nil⟩

theorem says_heading {path : String} (hpath : path = ".".intercalate ps) (hne : ps ≠ [])
    (hps : ∀ x ∈ ps, IsName x) : Says s!"[{path}]" (.heading ps) := by
  refine ⟨?_, read_heading hpath hne hps⟩
  rw [hpath]
  simp only [toString, String.toList_append, List.mem_append, not_or]
  exact ⟨⟨by decide, plain_path (Or.inr rfl) hps⟩, by decide⟩

theorem says_entry {key value : String} (hk : IsKey key) (hv : IsValue value) :
    Says s!"{key} = {value}" (.entry key value) := by
  refine ⟨?_, read_entry hk hv⟩
  simp only [toString, String.toList_append, List.mem_append, not_or]
  exact ⟨⟨hk.plain.noFeed, by decide⟩, hv.noFeed⟩

theorem lines_eq (n : Node) : n.lines = (if n.path.isEmpty then [] else [s!"[{n.path}]"])
    ++ n.entries.map (fun e => s!"{e.1} = {e.2}") ++ linesAll n.sections := by
  cases n
  rw [lines]

theorem says_entries {es : List (String × String)} (hes : ∀ e ∈ es, IsKey e.1 ∧ IsValue e.2) :
    List.Forall₂ Says (es.map fun e => s!"{e.1} = {e.2}") (es.map fun e => .entry e.1 e.2) := by
  rw [List.forall₂_map_left_iff, List.forall₂_map_right_iff, List.forall₂_same]
  exact fun e he => says_entry (hes e he).1 (hes e he).2

/-- What the lines of a section say below its heading. -/
def SaysBody (n : Node) (ps : List String) : Prop :=
  List.Forall₂ Says (n.entries.map (fun e => s!"{e.1} = {e.2}") ++ linesAll n.sections) (n.body ps)

theorem says_bodyAll {cs : List Node} (hps : ∀ x ∈ ps, IsName x)
    (hcs : ∀ c ∈ cs, IsName c.name ∧ c.path = ".".intercalate (ps ++ [c.name])
      ∧ c.SaysBody (ps ++ [c.name])) : List.Forall₂ Says (linesAll cs) (bodyAll ps cs) := by
  induction cs with
  | nil => exact .nil
  | cons c rest ih =>
      obtain ⟨hname, hpath, hbody⟩ := hcs c List.mem_cons_self
      have hpc := isName_concat hps hname
      -- a child's path is not empty, so its heading is written
      have hhead : c.path.isEmpty = false := by
        rw [← Bool.not_eq_true, String.isEmpty_iff, hpath, intercalate_eq_empty hpc]
        simp
      have hlines : linesAll (c :: rest) = "" :: s!"[{c.path}]"
          :: ((c.entries.map (fun e => s!"{e.1} = {e.2}") ++ linesAll c.sections)
            ++ linesAll rest) := by
        rw [linesAll, lines_eq, hhead]
        simp
      rw [hlines, bodyAll]
      exact .cons says_blank (.cons (says_heading hpath (by simp) hpc)
        (List.rel_append hbody (ih fun d hd => hcs d (List.mem_cons_of_mem _ hd))))

/-- In a sound tree under the path that its names make, every line says what it should. -/
theorem says_body (h : Sound n) (hps : ∀ x ∈ ps, IsName x) (hpath : n.path = ".".intercalate ps) :
    n.SaysBody ps := by
  induction n using induct generalizing ps with
  | step n ih =>
      unfold SaysBody
      rw [body_eq]
      refine List.rel_append (says_entries h.tidy.entries) (says_bodyAll hps fun c hc => ?_)
      obtain ⟨hname, hcp⟩ := h.tidy.sections c hc
      have hpath' : c.path = ".".intercalate (ps ++ [c.name]) := by
        rw [hcp, hpath, extend_intercalate hps]
      exact ⟨hname, hpath', ih c hc (h.children c hc) (isName_concat hps hname) hpath'⟩

/-- Lines read as what they say, and each is a line of its own. -/
theorem mapM_read {lines : List String} {rs : List Line} (h : List.Forall₂ Says lines rs) :
    (lines.map String.toList).mapM Line.read = .ok rs ∧ ∀ line ∈ lines, '\n' ∉ line.toList := by
  induction h with
  | nil => exact ⟨rfl, by simp⟩
  | cons hline _ ih =>
      refine ⟨?_, fun line hmem => ?_⟩
      · rw [List.map_cons, List.mapM_cons, hline.read, ih.1]
        rfl
      · rcases List.mem_cons.mp hmem with rfl | hmem
        · exact hline.noFeed
        · exact ih.2 line hmem

/-- **The records of a dump** are those of the tree that was written. -/
theorem records_dump (h : n.Rooted) : records n.dump = .ok (n.body []) := by
  have hlines : n.lines = n.entries.map (fun e => s!"{e.1} = {e.2}") ++ linesAll n.sections := by
    rw [lines_eq, h.path]
    rfl
  have hbody : n.SaysBody [] := says_body h.sound (by simp) h.path
  obtain ⟨hread, hfeed⟩ := mapM_read hbody
  rw [← hlines] at hread hfeed
  rw [records, textLines_dump hfeed, hread]

/-! ## What the records build -/

/-- A section at a list of names is fed when the scan has its tree changed there, no more
inclusions, and only the headings that are `new` declared. -/
structure Fed (s s' : Scan) (root : Node) (new : List String → Prop) : Prop where
  root : s'.root = root
  inclusions : s'.inclusions = s.inclusions
  declared : ∀ names ∈ s'.declared, names ∈ s.declared ∨ new names

/-- An entry under a free name is added. -/
theorem entry_of_free {key value : String} (h : s.root.Sound) (hp : s.root.at? s.current = some p)
    (hfree : key ∉ p.names) :
    s.apply (.entry key value)
      = .ok { s with root := s.root.modifyAt (·.addEntry key value) s.current } := by
  have hname : ¬ p.hasName key = true := fun hk => hfree ((hasName_iff (h.at? hp).indexed).mp hk)
  show s.entry key value = _
  unfold Scan.entry
  rw [nodeAt_of_at? hp]
  exact if_neg hname

/-- A heading under a free name that was not declared before opens an empty child. -/
theorem heading_of_free {x : String} (h : s.root.Sound) (hp : s.root.at? ps = some p)
    (hfree : x ∉ p.names) (hfresh : ps ++ [x] ∉ s.declared) :
    s.apply (.heading (ps ++ [x]))
      = .ok { s with root := s.root.modifyAt (·.addChild (emptyBelow p.path x)) ps
                     current := ps ++ [x], declared := s.declared ++ [ps ++ [x]] } := by
  have hnew : s.declared.contains (ps ++ [x]) = false := by
    rw [← Bool.not_eq_true, List.contains_iff_mem]
    exact hfresh
  show s.heading _ = _
  unfold Scan.heading
  rw [hnew, openAt_free h hp hfree]
  rfl

/-- Entries under free names are added to the section that is open. -/
theorem foldlM_entries {es : List (String × String)} (h : s.root.Sound)
    (hp : s.root.at? s.current = some p) (hes : ∀ e ∈ es, IsKey e.1 ∧ IsValue e.2)
    (hfree : ∀ e ∈ es, e.1 ∉ p.names) (hnodup : (es.map Prod.fst).Nodup) :
    (es.map fun e => Line.entry e.1 e.2).foldlM Scan.apply s
      = .ok { s with root := s.root.modifyAt (·.addEntries es) s.current } := by
  induction es generalizing s p with
  | nil => rw [modifyAt_self h hp (by rfl)]; rfl
  | cons e rest ih =>
      obtain ⟨hfirst, hrest⟩ := List.nodup_cons.mp hnodup
      obtain ⟨hk, hv⟩ := hes e List.mem_cons_self
      have hfreeE := hfree e List.mem_cons_self
      -- the rest goes to the section with the first entry, whose key none of the rest has
      have hadd := at?_modifyAt (f := (·.addEntry e.1 e.2)) h (fun _ => rfl) hp
      have hsound := sound_modifyAt (f := (·.addEntry e.1 e.2)) h (fun _ => rfl) (fun _ => rfl) hp
        (sound_addEntry (h.at? hp) hfreeE hk hv)
      have hnext := ih (s := { s with root := s.root.modifyAt (·.addEntry e.1 e.2) s.current })
        hsound hadd (fun f hf => hes f (List.mem_cons_of_mem _ hf)) (fun f hf hm => ?_) hrest
      · rw [List.map_cons, List.foldlM_cons, entry_of_free h hp hfreeE]
        refine hnext.trans ?_
        rw [modifyAt_modifyAt (g := (·.addEntry e.1 e.2)) h
          (fun m => (addEntries_frame m rest).1) (fun _ => rfl) hp]
        rfl
      · rcases mem_names_addEntry.mp hm with hm | hm
        · exact hfree f (List.mem_cons_of_mem _ hf) hm
        · exact hfirst (hm ▸ List.mem_map_of_mem hf)

/-- The body of a section feeds an empty one of its path, when no heading below is declared yet. -/
def FedByBody (c : Node) : Prop :=
  ∀ ⦃s : Scan⦄ ⦃ps : List String⦄ ⦃p : Node⦄, s.root.Sound → s.current = ps →
    s.root.at? ps = some p → p.path = c.path → p.entries = [] ∧ p.sections = [] →
    (∀ names ∈ s.declared, ∀ x, ¬ ps ++ [x] <+: names) →
    ∃ s', (c.body ps).foldlM Scan.apply s = .ok s'
      ∧ Fed s s' (s.root.modifyAt (·.grow c.entries c.sections) ps) (∃ x, ps ++ [x] <+: ·)

/-- A section with its heading becomes a child of the section it stands below. -/
theorem foldlM_section (hd : d.FedByBody) (hds : d.Sound) (h : s.root.Sound)
    (hp : s.root.at? ps = some p) (hname : IsName d.name) (hpath : d.path = extend p.path d.name)
    (hfree : d.name ∉ p.names) (hnew : ∀ names ∈ s.declared, ¬ ps ++ [d.name] <+: names) :
    ∃ s', (.blank :: .heading (ps ++ [d.name]) :: d.body (ps ++ [d.name])).foldlM Scan.apply s
        = .ok s'
      ∧ Fed s s' (s.root.modifyAt (·.addChild d) ps) (ps ++ [d.name] <+: ·) := by
  have hps := h.at? hp
  -- the heading opens an empty section
  let bare := emptyBelow p.path d.name
  let s1 : Scan := { s with root := s.root.modifyAt (·.addChild bare) ps, current := ps ++ [d.name]
                            declared := s.declared ++ [ps ++ [d.name]] }
  have hheading : s.apply (.heading (ps ++ [d.name])) = .ok s1 :=
    heading_of_free h hp hfree fun hm => hnew _ hm (List.prefix_refl _)
  have hsound1 : s1.root.Sound :=
    sound_modifyAt (f := (·.addChild bare)) h (fun _ => rfl) (fun _ => rfl) hp
      (sound_addChild hps (sound_emptyBelow _ _) hfree hname rfl)
  have hat1 : s1.root.at? (ps ++ [d.name]) = some bare := by
    rw [at?_concat (at?_modifyAt (f := (·.addChild bare)) h (fun _ => rfl) hp)]
    exact child?_addChild (c := bare) hps.indexed hfree
  have hnew1 : ∀ names ∈ s1.declared, ∀ x, ¬ ps ++ [d.name] ++ [x] <+: names := by
    intro names hn x hx
    rcases List.mem_append.mp hn with hn | hn
    · exact hnew names hn ((List.prefix_append _ _).trans hx)
    · rw [List.mem_singleton.mp hn] at hx
      simpa using hx.length_le
  -- and its body feeds it
  obtain ⟨s', hs', hfed⟩ := @hd s1 (ps ++ [d.name]) bare hsound1 rfl hat1 hpath.symm ⟨rfl, rfl⟩
    hnew1
  refine ⟨s', ?_, ?_, hfed.inclusions, fun names hn => ?_⟩
  · show (do let m ← s.apply (.heading (ps ++ [d.name]))
             (d.body (ps ++ [d.name])).foldlM Scan.apply m) = .ok s'
    rw [hheading]
    exact hs'
  · have hgrown : bare.grow d.entries d.sections = d :=
      grow_empty (sound_emptyBelow _ _) hds ⟨rfl, rfl⟩ rfl hpath.symm
    have hadded := modifyAt_addChild (c := bare) h (name_grow · d.entries d.sections) hp hfree
    rw [hgrown] at hadded
    exact hfed.root.trans hadded
  · rcases hfed.declared names hn with hn | ⟨x, hx⟩
    · refine (List.mem_append.mp hn).imp_right fun hm => ?_
      obtain rfl := List.mem_singleton.mp hm
      exact List.prefix_refl _
    · exact Or.inr ((List.prefix_append _ _).trans hx)

/-- Sections one after the other become children one after the other. -/
theorem foldlM_bodyAll {cs : List Node} (h : s.root.Sound) (hp : s.root.at? ps = some p)
    (hcs : ∀ d ∈ cs, d.FedByBody ∧ d.Sound ∧ IsName d.name ∧ d.path = extend p.path d.name
      ∧ d.name ∉ p.names)
    (hnodup : (cs.map name).Nodup)
    (hnew : ∀ d ∈ cs, ∀ names ∈ s.declared, ¬ ps ++ [d.name] <+: names) :
    ∃ s', (bodyAll ps cs).foldlM Scan.apply s = .ok s'
      ∧ Fed s s' (s.root.modifyAt (·.addChildren cs) ps) (∃ x, ps ++ [x] <+: ·) := by
  induction cs generalizing s p with
  | nil => exact ⟨s, rfl, (modifyAt_self h hp rfl).symm, rfl, fun _ hn => Or.inl hn⟩
  | cons d rest ih =>
      obtain ⟨hfirst, hrest⟩ := List.nodup_cons.mp hnodup
      obtain ⟨hd, hds, hname, hpath, hfree⟩ := hcs d List.mem_cons_self
      obtain ⟨s1, hs1, hfed1⟩ := foldlM_section hd hds h hp hname hpath hfree
        (hnew d List.mem_cons_self)
      have hat1 : s1.root.at? ps = some (p.addChild d) := by
        rw [hfed1.root]; exact at?_modifyAt (f := (·.addChild d)) h (fun _ => rfl) hp
      have hsound1 : s1.root.Sound := by
        rw [hfed1.root]
        exact sound_modifyAt (f := (·.addChild d)) h (fun _ => rfl) (fun _ => rfl) hp
          (sound_addChild (h.at? hp) hds hfree hname hpath)
      have hapart : ∀ e ∈ rest, e.name ≠ d.name := fun e he hed =>
        hfirst (hed ▸ List.mem_map_of_mem he)
      have hnext := ih hsound1 hat1 (fun e he => ?_) hrest fun e he names hn hpre => ?_
      · obtain ⟨s', hs', hfed'⟩ := hnext
        refine ⟨s', ?_, ?_, hfed'.inclusions.trans hfed1.inclusions, fun names hn => ?_⟩
        · rw [bodyAll]
          exact Scan.foldlM_append_eq_ok.mpr ⟨s1, hs1, hs'⟩
        · rw [hfed'.root, hfed1.root, modifyAt_modifyAt (g := (·.addChild d)) h
            (fun m => (addChildren_frame m rest).1) (fun _ => rfl) hp]
          rfl
        · rcases hfed'.declared names hn with hn | hn
          · exact (hfed1.declared names hn).imp_right fun hn => ⟨_, hn⟩
          · exact Or.inr hn
      · obtain ⟨he1, he2, he3, he4, he5⟩ := hcs e (List.mem_cons_of_mem _ he)
        refine ⟨he1, he2, he3, he4, fun hm => ?_⟩
        exact (mem_names_addChild.mp hm).elim he5 (hapart e he)
      · rcases hfed1.declared names hn with hn | hn
        · exact hnew e (List.mem_cons_of_mem _ he) names hn hpre
        · -- two names at one place of one list are one name
          have heq := List.IsPrefix.eq_of_length
            (List.prefix_of_prefix_length_le hpre hn (by simp)) (by simp)
          exact hapart e he (by simpa using heq)

/-- **The body of a sound section feeds an empty one.** -/
theorem fedByBody (c : Node) (hc : c.Sound) : c.FedByBody := by
  induction c using induct with
  | step c ih =>
      intro s ps p h hcur hp hpath hempty hnew
      obtain ⟨hkeys, hchildren, hapart⟩ := List.nodup_append.mp hc.indexed.nodup
      have hnames : p.names = [] := by simp [names, keys, childNames, hempty]
      subst hcur
      -- entries first, which the section has no name for yet
      have hentries := foldlM_entries h hp hc.tidy.entries (by simp [hnames]) hkeys
      have hat1 := at?_modifyAt h (fun m => (addEntries_frame m c.entries).1) hp
      have hsound1 : (s.root.modifyAt (·.addEntries c.entries) s.current).Sound :=
        sound_modifyAt h (fun m => (addEntries_frame m c.entries).1)
          (fun m => (addEntries_frame m c.entries).2.1) hp
          (sound_addEntries (h.at? hp) hc.tidy.entries (by simp [hnames]) hkeys)
      obtain ⟨-, hpath1, hent1, hsec1⟩ := addEntries_frame p c.entries
      -- then children, none of which has the name of an entry
      have hsections := foldlM_bodyAll
        (s := { s with root := s.root.modifyAt (·.addEntries c.entries) s.current })
        hsound1 hat1 (fun d hd => ?_) hchildren (fun d _ names hn => hnew names hn _)
      · obtain ⟨s', hs', hfed⟩ := hsections
        refine ⟨s', ?_, ?_, hfed.inclusions, hfed.declared⟩
        · rw [body_eq]
          exact Scan.foldlM_append_eq_ok.mpr ⟨_, hentries, hs'⟩
        · rw [hfed.root, modifyAt_modifyAt h (fun m => (addChildren_frame m c.sections).1)
            (fun m => (addEntries_frame m c.entries).1) hp]
          rfl
      · obtain ⟨hname, hdp⟩ := hc.tidy.sections d hd
        refine ⟨ih d hd (hc.children d hd), hc.children d hd, hname, ?_, fun hm => ?_⟩
        · rw [hpath1, hpath, hdp]
        · have hm : d.name ∈ c.keys := by
            simpa [names, keys, childNames, hent1, hsec1, hempty] using hm
          exact hapart _ hm _ (List.mem_map_of_mem hd) rfl

end Node

namespace Library

variable {l : Library} {root : Node}

/-- A rooted tree is read from its dump, whatever the library: a dump includes nothing. -/
theorem parseText_dump_of_rooted (l : Library) (h : root.Rooted) :
    l.parseText root.dump = .ok root := by
  have hstart : Scan.start.root.grow root.entries root.sections = root :=
    Node.grow_empty Node.sound_root h.sound ⟨rfl, rfl⟩ h.name.symm h.path.symm
  obtain ⟨s, hs, hfed⟩ := @Node.fedByBody root h.sound .start [] .root Node.sound_root rfl rfl
    h.path.symm ⟨rfl, rfl⟩ (by simp [Scan.start])
  have hroot : s.root = root := hfed.root.trans hstart
  have hnone : s.inclusions = [] := hfed.inclusions
  refine expand_eq_ok.mpr ⟨s, [], scan_eq_ok.mpr ⟨_, Node.records_dump h, hs⟩, ?_, ?_⟩
  · rw [hnone]; exact .nil
  · rw [Scan.merge, hnone, hroot]; rfl

/-- The tree is what a text, a source or a file of the library is read as. -/
def Gives (l : Library) (root : Node) : Prop :=
  (∃ text, l.parseText text = .ok root) ∨ (∃ name, l.parseSource name = .ok root)
    ∨ ∃ path, l.parseFile path = .ok root

theorem rooted_of_gives (h : l.Gives root) : root.Rooted := by
  obtain ⟨_, h⟩ | ⟨_, h⟩ | ⟨_, h⟩ := h
  · exact parseText_rooted h
  · exact parseSource_rooted h
  · exact parseFile_rooted h

/-- **A dump reads back**: whatever was read, with all that was merged into it, is written as a
text that is read as the same tree without any library. -/
theorem parseText_dump (h : l.Gives root) : empty.parseText root.dump = .ok root :=
  parseText_dump_of_rooted empty (rooted_of_gives h)

/-- A text with two sources merged into it, the one through the other. -/
theorem parseText_dump_nested : ∃ root,
    ((empty.register "a" "k = v # c\n@include b\n[s]").register "b" "x = [z\n[t.u]\np =").parseText
        "[s]\n@include a\nq = 1" = .ok root
      ∧ root.lines
        = ["", "[s]", "q = 1", "k = v", "x = [z", "", "[s.s]", "", "[s.t]", "", "[s.t.u]", "p = "]
      ∧ empty.parseText root.dump = .ok root := by
  have hlines : (((empty.register "a" "k = v # c\n@include b\n[s]").register "b"
      "x = [z\n[t.u]\np =").parseText "[s]\n@include a\nq = 1").toOption.map Node.lines
      = some ["", "[s]", "q = 1", "k = v", "x = [z", "", "[s.s]", "", "[s.t]", "", "[s.t.u]",
        "p = "] := by decide +kernel
  obtain ⟨root, hroot, hlines⟩ := Option.map_eq_some_iff.mp hlines
  have hread := eq_ok_of_toOption hroot
  exact ⟨root, hread, hlines, parseText_dump (Or.inl ⟨_, hread⟩)⟩

end Library

end PacedNet.Config
