import PacedNet.Proofs.Config.Scanning

/-!
# What a text declares

The records of a text say by themselves what it declares: every record stands in
the section of the last heading before it, and a heading declares its section and
all sections on the way there.

Reading builds exactly that. One record adds to a section what it declares there
and nothing to any other (`apply_extends`), hence all records do
(`foldlM_extends`), hence the tree of a source has in each section the entries,
the children and the inclusions that its text declares (`scan_declares`).
-/

namespace PacedNet.Config

namespace Line

def heading? : Line → Option (List String)
  | heading names => some names
  | _ => none

def entry? : Line → Option (String × String)
  | entry key value => some (key, value)
  | _ => none

def inclusion? : Line → Option String
  | inclusion name => some name
  | _ => none

end Line

/-- Records with the sections they stand in; a heading stands in the section it opens. -/
def placed : List String → List Line → List (List String × Line)
  | _, [] => []
  | current, r :: rest =>
    (r.heading?.getD current, r) :: placed (r.heading?.getD current) rest

/-- What stands in a section, of all that is placed. -/
def standing {α : Type} (f : Line → Option α) (ps : List String)
    (rs : List (List String × Line)) : List α :=
  rs.filterMap fun r => if r.1 = ps then f r.2 else none

/-- The name that leads on from a section towards another. -/
def next? : List String → List String → Option String
  | [], x :: _ => some x
  | p :: ps, x :: xs => if p = x then next? ps xs else none
  | _, [] => none

def headings (rs : List Line) : List (List String) := rs.filterMap Line.heading?

@[simp]
theorem headings_singleton (r : Line) : headings [r] = r.heading?.toList := by
  cases h : r.heading? <;> simp [headings, h]

/-- The entries that a text has in a section. -/
def localEntries (rs : List Line) (ps : List String) : List (String × String) :=
  standing Line.entry? ps (placed [] rs)

/-- The inclusions that a text has in a section. -/
def localInclusions (rs : List Line) (ps : List String) : List String :=
  standing Line.inclusion? ps (placed [] rs)

/-- The sections that a text has in a section, in the order of their first mention. -/
def localSections (rs : List Line) (ps : List String) : List String :=
  ((headings rs).filterMap (next? ps)).eraseDups

/-- All names that a text defines in a section. -/
def localNames (rs : List Line) (ps : List String) : List String :=
  (localEntries rs ps).map Prod.fst ++ localSections rs ps

/-- The text has a section at a list of names. -/
def Opens (rs : List Line) (ps : List String) : Prop := ps = [] ∨ ∃ names ∈ headings rs, ps <+: names

theorem next?_eq_some {ps names : List String} {x : String} :
    next? ps names = some x ↔ ps ++ [x] <+: names := by
  induction ps generalizing names with
  | nil => cases names <;> simp [next?, eq_comm]
  | cons p ps ih =>
      cases names with
      | nil => simp [next?]
      | cons y names =>
          rw [List.cons_append, List.cons_prefix_cons, next?]
          split <;> simp_all

/-- A section's name is declared in the section above it. -/
theorem mem_localSections {rs : List Line} {ps : List String} {x : String} :
    x ∈ localSections rs ps ↔ Opens rs (ps ++ [x]) := by
  unfold localSections Opens
  rw [List.mem_eraseDups, List.mem_filterMap]
  simp [next?_eq_some]

/-! ## Names in the order of their first mention -/

/-- Adds the names that are new. -/
def addNew (xs ys : List String) : List String :=
  ys.foldl (fun xs y => if y ∈ xs then xs else xs ++ [y]) xs

theorem addNew_append (xs ys zs : List String) : addNew xs (ys ++ zs) = addNew (addNew xs ys) zs :=
  List.foldl_append

theorem addNew_eq (xs ys : List String) :
    addNew xs ys = xs ++ (ys.filter (· ∉ xs)).eraseDups := by
  induction ys generalizing xs with
  | nil => simp [addNew]
  | cons y rest ih =>
      by_cases hy : y ∈ xs
      · have hstep : addNew xs (y :: rest) = addNew xs rest := by simp [addNew, hy]
        rw [hstep, ih, List.filter_cons_of_neg (by simpa using hy)]
      · -- a new name bars its namesakes further on
        have hstep : addNew xs (y :: rest) = addNew (xs ++ [y]) rest := by simp [addNew, hy]
        have hfilter : rest.filter (· ∉ xs ++ [y])
            = (rest.filter (· ∉ xs)).filter (fun z => !z == y) := by
          rw [List.filter_filter]
          refine List.filter_congr fun z _ => ?_
          by_cases hz : z = y <;> simp [hz]
        rw [hstep, ih, List.filter_cons_of_pos (by simpa using hy), List.eraseDups_cons, hfilter]
        simp

namespace Node

variable {n c q t : Node} {x key value : String} {ps qs names : List String}

/-! ## What a place shows -/

theorem childNames_setChild (h : n.Indexed) (c : Node) :
    (n.setChild c).childNames = addNew n.childNames [c.name] := by
  rcases setChild_cases h c with ⟨hfree, heq⟩ | ⟨before, old, after, hsec, hname, heq⟩
  · rw [heq, childNames_addChild]
    simp [addNew, hfree]
  · have hmem : c.name ∈ n.childNames := by unfold childNames; rw [hsec, hname]; simp
    rw [heq, childNames_of_split hsec hname]
    simp [addNew, hmem]

theorem childOrNew_setChild_self (h : n.Indexed) (hkey : c.name ∉ n.keys) :
    (n.setChild c).childOrNew c.name = c := childOrNew_of_child? (child?_setChild_self h hkey)

theorem childOrNew_setChild_ne (h : n.Indexed) (hkey : c.name ∉ n.keys) (hx : x ≠ c.name) :
    (n.setChild c).childOrNew x = n.childOrNew x := by
  unfold childOrNew
  rw [child?_setChild_ne h hkey hx, (setChild_frame n c).2.1]

/-- Nothing shows anywhere below an empty section. -/
theorem nodeAt_emptyBelow (ps : List String) (path name : String) :
    ∃ path' name', nodeAt ps (emptyBelow path name) = emptyBelow path' name' := by
  induction ps generalizing path name with
  | nil => exact ⟨path, name, rfl⟩
  | cons x ps ih => exact ih _ x

/-- A new entry shows where it was added, and nothing else changes. -/
theorem nodeAt_addEntry (h : Sound n) (hq : at? qs n = some q) (key value : String)
    (ps : List String) :
    (nodeAt ps (modifyAt (·.addEntry key value) qs n)).entries
        = (nodeAt ps n).entries ++ (if qs = ps then [(key, value)] else [])
      ∧ (nodeAt ps (modifyAt (·.addEntry key value) qs n)).childNames
        = (nodeAt ps n).childNames := by
  induction qs generalizing n ps with
  | nil =>
      cases ps with
      | nil => exact ⟨rfl, rfl⟩
      | cons x ps => exact ⟨by rw [if_neg (by simp), List.append_nil]; rfl, rfl⟩
  | cons y qs ih =>
      obtain ⟨c, hc, hcq⟩ := at?_cons_eq_some hq
      obtain ⟨hsound, rfl, hkey, -, -⟩ := h.child hc
      have hname := name_modifyAt (f := (·.addEntry key value)) (fun _ => rfl) qs c
      rw [modifyAt_cons hc]
      cases ps with
      | nil =>
          -- the child is put back in its place
          rw [if_neg (by simp), List.append_nil]
          refine ⟨(setChild_frame n _).2.2.1, ?_⟩
          have hmem : c.name ∈ n.childNames :=
            List.mem_map_of_mem ((child?_eq_some_iff h.indexed).mp hc).1
          show (n.setChild _).childNames = n.childNames
          rw [childNames_setChild h.indexed, hname]
          simp [addNew, hmem]
      | cons x ps =>
          by_cases hx : x = c.name
          · subst hx
            have hself := childOrNew_setChild_self (c := modifyAt (·.addEntry key value) qs c)
              h.indexed (by rwa [hname])
            rw [hname] at hself
            rw [nodeAt, nodeAt, hself, childOrNew_of_child? hc]
            simpa using ih hsound hcq ps
          · rw [nodeAt, nodeAt, childOrNew_setChild_ne h.indexed (by rwa [hname]) (by rwa [hname])]
            simp [Ne.symm hx]

/-- An opened section shows as a child on the way to it, and nothing else changes. -/
theorem nodeAt_openAt (h : Sound n) (ht : openAt names n = .ok t) (ps : List String) :
    (nodeAt ps t).entries = (nodeAt ps n).entries
      ∧ (nodeAt ps t).childNames = addNew (nodeAt ps n).childNames (next? ps names).toList := by
  induction names generalizing n t ps with
  | nil =>
      injection ht with ht
      subst ht
      cases ps <;> exact ⟨rfl, rfl⟩
  | cons y names ih =>
      obtain ⟨hbar, c, hopen, rfl⟩ := openAt_cons_eq_ok ht
      obtain ⟨rfl, -, hkey⟩ := h.of_openAt_cons hbar hopen
      cases ps with
      | nil => exact ⟨(setChild_frame n c).2.2.1, childNames_setChild h.indexed c⟩
      | cons x ps =>
          by_cases hx : x = c.name
          · subst hx
            rw [nodeAt, nodeAt, childOrNew_setChild_self h.indexed hkey, next?, if_pos rfl]
            exact ih (h.childOrNew c.name).1 hopen ps
          · rw [nodeAt, nodeAt, childOrNew_setChild_ne h.indexed hkey hx, next?, if_neg hx]
            exact ⟨rfl, rfl⟩

end Node

/-! ## What reading adds -/

namespace Scan

/-- What has been read after `s` is what the placed records declare. -/
structure Extends (s s' : Scan) (rs : List (List String × Line)) : Prop where
  inclusions : s'.inclusions
    = s.inclusions ++ rs.filterMap fun r => r.2.inclusion?.map (Inclusion.mk r.1)
  entries : ∀ ps, (s'.root.nodeAt ps).entries
    = (s.root.nodeAt ps).entries ++ standing Line.entry? ps rs
  sections : ∀ ps, (s'.root.nodeAt ps).childNames
    = addNew (s.root.nodeAt ps).childNames
        ((headings (rs.map Prod.snd)).filterMap (next? ps))
  opens : ∀ ps, s.root.Holds ps ∨ (∃ names ∈ headings (rs.map Prod.snd), ps <+: names) →
    s'.root.Holds ps

variable {s s' : Scan}

/-- One record declares what it says, in the section it stands in. -/
theorem apply_extends {r : Line} (h : s.Sound) (hs : s.apply r = .ok s') :
    s'.current = r.heading?.getD s.current
      ∧ s.Extends s' [(r.heading?.getD s.current, r)] := by
  cases r with
  | blank =>
      injection hs with hs
      subst hs
      exact ⟨rfl, by simp [Line.inclusion?], by simp [standing, Line.entry?],
        by simp [Line.heading?, addNew], by simp [Line.heading?]⟩
  | heading names =>
      obtain ⟨-, root, hopen, rfl⟩ := heading_eq_ok hs
      refine ⟨rfl, by simp [Line.inclusion?], fun ps => ?_, fun ps => ?_, fun ps hps => ?_⟩
      · simpa [standing, Line.entry?] using (Node.nodeAt_openAt h.rooted.sound hopen ps).1
      · rw [(Node.nodeAt_openAt h.rooted.sound hopen ps).2]
        cases hnext : next? ps names <;> simp [Line.heading?, hnext]
      · exact holds_openAt h.rooted.sound hopen (by simpa [Line.heading?] using hps)
  | entry key value =>
      obtain ⟨-, rfl⟩ := entry_eq_ok hs
      obtain ⟨p, hp⟩ := h.current
      have hadd := Node.nodeAt_addEntry h.rooted.sound hp key value
      refine ⟨rfl, by simp [Line.inclusion?], fun ps => ?_, fun ps => ?_, fun ps hps => ?_⟩
      · rw [(hadd ps).1]
        by_cases hcur : s.current = ps <;> simp [standing, Line.entry?, Line.heading?, hcur]
      · rw [(hadd ps).2]
        simp [Line.heading?, addNew]
      · exact holds_modifyAt h.rooted.sound (fun _ => rfl) hp (fun _ _ hc => hc)
          (by simpa [Line.heading?] using hps)
  | inclusion name =>
      injection hs with hs
      subst hs
      exact ⟨rfl, by simp [Line.inclusion?, Line.heading?], by simp [standing, Line.entry?],
        by simp [Line.heading?, addNew], by simp [Line.heading?]⟩

theorem Extends.trans {m : Scan} {as bs : List (List String × Line)} (h : s.Extends m as)
    (h' : m.Extends s' bs) : s.Extends s' (as ++ bs) := by
  refine ⟨?_, fun ps => ?_, fun ps => ?_, fun ps hps => h'.opens ps ?_⟩
  · rw [h'.inclusions, h.inclusions, List.filterMap_append, List.append_assoc]
  · rw [h'.entries, h.entries, standing, standing, standing, List.filterMap_append,
      List.append_assoc]
  · rw [h'.sections, h.sections, ← addNew_append]
    simp [headings]
  · rcases hps with hps | ⟨names, hnames, hpre⟩
    · exact Or.inl (h.opens ps (Or.inl hps))
    · rw [headings, List.map_append, List.filterMap_append] at hnames
      rcases List.mem_append.mp hnames with hnames | hnames
      · exact Or.inl (h.opens ps (Or.inr ⟨names, hnames, hpre⟩))
      · exact Or.inr ⟨names, hnames, hpre⟩

/-- **Records declare what they say**, each in its section. -/
theorem foldlM_extends {rs : List Line} (hr : ∀ r ∈ rs, r.Shaped) (h : s.Sound)
    (hs : rs.foldlM apply s = .ok s') : s.Extends s' (placed s.current rs) := by
  induction rs generalizing s with
  | nil =>
      injection hs with hs
      subst hs
      exact ⟨by simp [placed], by simp [placed, standing], by simp [placed, headings, addNew],
        by simp [placed, headings]⟩
  | cons r rest ih =>
      rw [List.foldlM_cons] at hs
      cases hstep : s.apply r with
      | error breach => rw [hstep] at hs; exact absurd hs (by simp [bind, Except.bind])
      | ok m =>
          rw [hstep] at hs
          obtain ⟨hcur, hone⟩ := apply_extends h hstep
          have hm := sound_apply (hr r List.mem_cons_self) h hstep
          have hrest := ih (fun q hq => hr q (List.mem_cons_of_mem _ hq)) hm hs
          rw [hcur] at hrest
          exact hone.trans hrest

end Scan

theorem map_snd_placed (current : List String) (rs : List Line) :
    (placed current rs).map Prod.snd = rs := by
  induction rs generalizing current with
  | nil => rfl
  | cons r rest ih => rw [placed, List.map_cons, ih]

/-- The tree of records shows at every place what the records declare there. -/
theorem Scan.nodeAt_foldlM {rs : List Line} {s : Scan} (hr : ∀ r ∈ rs, r.Shaped)
    (hs : rs.foldlM Scan.apply .start = .ok s) (ps : List String) :
    (s.root.nodeAt ps).entries = localEntries rs ps
      ∧ (s.root.nodeAt ps).childNames = localSections rs ps := by
  have hext := Scan.foldlM_extends hr Scan.sound_start hs
  -- at the start there is nothing anywhere, so what is there now is what was declared
  obtain ⟨path, name, hempty⟩ := Node.nodeAt_emptyBelow ps "" ""
  constructor
  · rw [hext.entries]
    show (Node.nodeAt ps (.emptyBelow "" "")).entries ++ _ = _
    rw [hempty]
    rfl
  · rw [hext.sections, map_snd_placed]
    show addNew (Node.nodeAt ps (.emptyBelow "" "")).childNames _ = _
    rw [hempty, addNew_eq]
    simp [localSections, Node.childNames, Node.emptyBelow, Node.root]

/-- **The tree of a source** has in each section of its text what the text declares there. -/
theorem scan_declares {source text : String} {s : Scan} (h : scan source text = .ok s) :
    ∃ rs, records text = .ok rs
      ∧ (∀ ps, s.inclusions.filterMap (fun i => if i.scope = ps then some i.name else none)
          = localInclusions rs ps)
      ∧ ∀ ps, Opens rs ps → ∃ b, s.root.at? ps = some b ∧ b.entries = localEntries rs ps
          ∧ b.childNames = localSections rs ps := by
  obtain ⟨rs, hrs, hs⟩ := scan_eq_ok.mp h
  have hext := Scan.foldlM_extends (records_shaped hrs) Scan.sound_start hs
  refine ⟨rs, hrs, fun ps => ?_, fun ps hps => ?_⟩
  · rw [hext.inclusions]
    show List.filterMap _ (List.filterMap _ (placed [] rs)) = _
    rw [List.filterMap_filterMap]
    refine List.filterMap_congr fun r _ => ?_
    cases r.2.inclusion? <;> by_cases hr : r.1 = ps <;> simp [hr]
  · have hholds : s.root.Holds ps := by
      refine hext.opens ps ?_
      rw [map_snd_placed]
      exact hps.imp_left fun hnil => ⟨.root, by rw [hnil]; rfl⟩
    obtain ⟨b, hb⟩ := hholds
    have hat := Scan.nodeAt_foldlM (records_shaped hrs) hs ps
    rw [Node.nodeAt_of_at? hb] at hat
    exact ⟨b, hb, hat⟩

end PacedNet.Config
