import Mathlib.Data.List.Nodup
import PacedNet.Config.Node
import PacedNet.Proofs.Config.LineShape

/-!
# One section and its index

A section is **tidy** when a name has one bearer in it and both indexes say where
the bearers stand. In a tidy section a look-up through an index is a search, and
each operation that builds trees keeps a section tidy: an entry or a child is
added under a free name, a child is put in the place of its namesake.

Tidiness also speaks of the texts (`IsKey`, `IsName`, `IsValue`) and of the
children's paths, since whoever adds something has to vouch for all of it.
-/

namespace PacedNet.Config

namespace Index

/-- The index of a list of names: each at its place. -/
def ofNames (names : List String) : Index := ⟨names.zipIdx⟩

theorem find?_ofNames_isSome {names : List String} {x : String} :
    ((ofNames names).find? x).isSome = true ↔ x ∈ names := by
  unfold find? ofNames
  rw [List.lookup_isSome_iff]
  constructor
  · rintro ⟨p, hp, hx⟩
    have := List.fst_mem_of_mem_zipIdx hp
    rwa [← eq_of_beq hx] at this
  · intro h
    obtain ⟨i, hi⟩ := List.getElem?_of_mem h
    exact ⟨(x, i), List.mem_zipIdx_iff_getElem?.mpr (by simpa using hi), by simp⟩

theorem find?_ofNames_eq_none {names : List String} {x : String} :
    (ofNames names).find? x = none ↔ x ∉ names := by
  rw [← find?_ofNames_isSome, ← Option.not_isSome_iff_eq_none]

/-- An index leads to the name it was asked for. -/
theorem getElem?_of_find? {names : List String} {x : String} {i : Nat}
    (h : (ofNames names).find? x = some i) : names[i]? = some x := by
  obtain ⟨before, after, hsplit, _⟩ := List.lookup_eq_some_iff.mp h
  have hmem : (x, i) ∈ names.zipIdx := by
    rw [show names.zipIdx = before ++ (x, i) :: after from hsplit]
    exact List.mem_append_right _ List.mem_cons_self
  simpa using List.mem_zipIdx_iff_getElem?.mp hmem

/-- A free name is noted at the end. -/
theorem insert_ofNames {names : List String} {x : String} (h : x ∉ names) :
    (ofNames names).insert x names.length = ofNames (names ++ [x]) := by
  unfold insert ofNames
  rw [List.zipIdx_append, List.filter_eq_self.mpr]
  · simp
  · intro p hp
    have : p.1 ∈ names := List.fst_mem_of_mem_zipIdx hp
    simpa using fun he : p.1 = x => h (he ▸ this)

end Index

namespace Node

/-- The keys of a section's entries, in order. -/
def keys (n : Node) : List String := n.entries.map Prod.fst

/-- The names of a section's children, in order. -/
def childNames (n : Node) : List String := n.sections.map Node.name

/-- All names that a section defines. -/
def names (n : Node) : List String := n.keys ++ n.childNames

/-- A name has one bearer, and the indexes say where it stands. -/
structure Indexed (n : Node) : Prop where
  entryIndex : n.entryIndex = .ofNames n.keys
  sectionIndex : n.sectionIndex = .ofNames n.childNames
  nodup : n.names.Nodup

/-- Indexed, with the texts and the children's paths in order too. -/
structure Tidy (n : Node) : Prop extends Indexed n where
  entries : ∀ e ∈ n.entries, IsKey e.1 ∧ IsValue e.2
  sections : ∀ c ∈ n.sections, IsName c.name ∧ c.path = extend n.path c.name

variable {n c d : Node} {x key value : String}

/-! ## Look-ups are searches -/

theorem hasKey_iff (h : n.Indexed) : n.hasKey x = true ↔ x ∈ n.keys := by
  unfold hasKey
  rw [h.entryIndex, Index.find?_ofNames_isSome]

theorem hasSection_iff (h : n.Indexed) : n.hasSection x = true ↔ x ∈ n.childNames := by
  unfold hasSection
  rw [h.sectionIndex, Index.find?_ofNames_isSome]

theorem hasName_iff (h : n.Indexed) : n.hasName x = true ↔ x ∈ n.names := by
  unfold hasName names
  rw [Bool.or_eq_true, hasKey_iff h, hasSection_iff h, List.mem_append]

theorem child?_eq_none (h : n.Indexed) (hx : x ∉ n.childNames) : n.child? x = none := by
  unfold child?
  rw [h.sectionIndex, Index.find?_ofNames_eq_none.mpr hx]
  rfl

theorem nodup_childNames (h : n.Indexed) : n.childNames.Nodup :=
  (List.nodup_append.mp h.nodup).2.1

/-- A child is where its index says: at the end of those that stand before it. -/
theorem find?_sectionIndex (h : n.Indexed) {before after : List Node}
    (hsec : n.sections = before ++ c :: after) :
    n.sectionIndex.find? c.name = some before.length := by
  have hmem : c.name ∈ n.childNames := by unfold childNames; rw [hsec]; simp
  rw [h.sectionIndex]
  -- the index leads to a place of that name, and there is no other
  obtain ⟨i, hi⟩ := Option.isSome_iff_exists.mp (Index.find?_ofNames_isSome.mpr hmem)
  have hat := Index.getElem?_of_find? hi
  have hat' : n.childNames[before.length]? = some c.name := by unfold childNames; rw [hsec]; simp
  have hlt := (List.getElem?_eq_some_iff.mp hat).1
  rw [hi, (List.getElem?_inj hlt (nodup_childNames h)).mp (hat.trans hat'.symm)]

theorem child?_of_split (h : n.Indexed) {before after : List Node}
    (hsec : n.sections = before ++ c :: after) : n.child? c.name = some c := by
  unfold child?
  rw [find?_sectionIndex h hsec]
  show n.sections[before.length]? = some c
  rw [hsec]
  simp

/-- A child of a name stands somewhere among the sections. -/
theorem exists_split (h : n.Indexed) (hc : n.child? x = some c) :
    c.name = x ∧ ∃ before after, n.sections = before ++ c :: after := by
  have hx : x ∈ n.childNames := by
    by_contra hx
    rw [child?_eq_none h hx] at hc
    exact absurd hc (by simp)
  obtain ⟨d, hd, rfl⟩ := List.mem_map.mp hx
  obtain ⟨before, after, hsec⟩ := List.append_of_mem hd
  rw [child?_of_split h hsec] at hc
  injection hc with hc
  subst hc
  exact ⟨rfl, before, after, hsec⟩

theorem child?_eq_some_iff (h : n.Indexed) : n.child? x = some c ↔ c ∈ n.sections ∧ c.name = x := by
  constructor
  · intro hc
    obtain ⟨hname, before, after, hsec⟩ := exists_split h hc
    exact ⟨by rw [hsec]; simp, hname⟩
  · rintro ⟨hc, rfl⟩
    obtain ⟨before, after, hsec⟩ := List.append_of_mem hc
    exact child?_of_split h hsec

theorem value?_eq_some_iff (h : n.Indexed) : n.value? x = some value ↔ (x, value) ∈ n.entries := by
  have hkey {i : Nat} : n.keys[i]? = some x ↔ ∃ v, n.entries[i]? = some (x, v) := by
    unfold keys
    rw [List.getElem?_map, Option.map_eq_some_iff]
    exact ⟨fun ⟨e, he, hx⟩ => ⟨e.2, by rw [he, ← hx]⟩, fun ⟨v, hv⟩ => ⟨_, hv, rfl⟩⟩
  have hnodup : n.keys.Nodup := (List.nodup_append.mp h.nodup).1
  unfold value?
  rw [h.entryIndex]
  constructor
  · intro hv
    obtain ⟨i, hi, hv⟩ := Option.bind_eq_some_iff.mp hv
    obtain ⟨e, he, hv⟩ := Option.bind_eq_some_iff.mp hv
    obtain ⟨v, hxv⟩ := hkey.mp (Index.getElem?_of_find? hi)
    rw [he] at hxv
    injection hxv with hxv
    injection hv with hv
    subst hxv hv
    exact List.mem_of_getElem? he
  · intro hmem
    obtain ⟨j, hj⟩ := List.getElem?_of_mem hmem
    have hx : x ∈ n.keys := List.mem_map_of_mem hmem
    obtain ⟨i, hi⟩ := Option.isSome_iff_exists.mp (Index.find?_ofNames_isSome.mpr hx)
    have hat := Index.getElem?_of_find? hi
    have hlt := (List.getElem?_eq_some_iff.mp hat).1
    -- both are places of one key
    have hij := (List.getElem?_inj hlt hnodup).mp (hat.trans (hkey.mpr ⟨value, hj⟩).symm)
    rw [hi]
    show (n.entries[i]?).bind _ = _
    rw [hij, hj]
    rfl

/-! ## Adding under a free name -/

theorem keys_addEntry : (n.addEntry key value).keys = n.keys ++ [key] := by
  simp [keys, addEntry]

theorem childNames_addChild : (n.addChild c).childNames = n.childNames ++ [c.name] := by
  simp [childNames, addChild]

theorem mem_names_addEntry : x ∈ (n.addEntry key value).names ↔ x ∈ n.names ∨ x = key := by
  unfold names
  rw [keys_addEntry]
  show x ∈ n.keys ++ [key] ++ n.childNames ↔ _
  simp only [List.mem_append, List.mem_singleton]
  tauto

theorem mem_names_addChild : x ∈ (n.addChild c).names ↔ x ∈ n.names ∨ x = c.name := by
  unfold names
  rw [childNames_addChild]
  show x ∈ n.keys ++ (n.childNames ++ [c.name]) ↔ _
  simp only [List.mem_append, List.mem_singleton]
  tauto

theorem indexed_addEntry (h : n.Indexed) (hfree : key ∉ n.names) :
    (n.addEntry key value).Indexed := by
  have hkey : key ∉ n.keys := fun hk => hfree (List.mem_append_left _ hk)
  refine ⟨?_, h.sectionIndex, ?_⟩
  · rw [keys_addEntry]
    show n.entryIndex.insert key n.entries.length = _
    rw [h.entryIndex, ← Index.insert_ofNames hkey]
    simp [keys]
  · have hperm : (n.addEntry key value).names.Perm (key :: n.names) := by
      unfold names
      rw [keys_addEntry]
      show (n.keys ++ [key] ++ n.childNames).Perm _
      rw [List.append_assoc]
      exact List.perm_middle
    exact hperm.nodup_iff.mpr (List.nodup_cons.mpr ⟨hfree, h.nodup⟩)

theorem indexed_addChild (h : n.Indexed) (hfree : c.name ∉ n.names) : (n.addChild c).Indexed := by
  have hname : c.name ∉ n.childNames := fun hc => hfree (List.mem_append_right _ hc)
  refine ⟨h.entryIndex, ?_, ?_⟩
  · rw [childNames_addChild]
    show n.sectionIndex.insert c.name n.sections.length = _
    rw [h.sectionIndex, ← Index.insert_ofNames hname]
    simp [childNames]
  · have hperm : (n.addChild c).names.Perm (c.name :: n.names) := by
      unfold names
      rw [childNames_addChild]
      show (n.keys ++ (n.childNames ++ [c.name])).Perm _
      rw [← List.append_assoc]
      exact List.perm_append_singleton _ _
    exact hperm.nodup_iff.mpr (List.nodup_cons.mpr ⟨hfree, h.nodup⟩)

theorem tidy_addEntry (h : n.Tidy) (hfree : key ∉ n.names) (hk : IsKey key) (hv : IsValue value) :
    (n.addEntry key value).Tidy := by
  refine ⟨indexed_addEntry h.toIndexed hfree, fun e he => ?_, h.sections⟩
  rcases List.mem_append.mp he with he | he
  · exact h.entries e he
  · rw [List.mem_singleton.mp he]; exact ⟨hk, hv⟩

theorem tidy_addChild (h : n.Tidy) (hfree : c.name ∉ n.names) (hname : IsName c.name)
    (hpath : c.path = extend n.path c.name) : (n.addChild c).Tidy := by
  refine ⟨indexed_addChild h.toIndexed hfree, h.entries, fun d hd => ?_⟩
  rcases List.mem_append.mp hd with hd | hd
  · exact h.sections d hd
  · rw [List.mem_singleton.mp hd]; exact ⟨hname, hpath⟩

/-! ## Putting a child in its place -/

theorem setChild_of_free (h : n.Indexed) (hfree : c.name ∉ n.childNames) :
    n.setChild c = n.addChild c := by
  unfold setChild
  rw [h.sectionIndex, Index.find?_ofNames_eq_none.mpr hfree]

theorem setChild_of_split (h : n.Indexed) {before after : List Node}
    (hsec : n.sections = before ++ d :: after) (hname : c.name = d.name) :
    n.setChild c = { n with sections := before ++ c :: after } := by
  unfold setChild
  rw [hname, find?_sectionIndex h hsec]
  dsimp only
  rw [hsec]
  simp

/-- What is kept when a child is put in its place: all of the section but its children. -/
theorem setChild_frame (n c : Node) : (n.setChild c).name = n.name ∧ (n.setChild c).path = n.path
    ∧ (n.setChild c).entries = n.entries ∧ (n.setChild c).entryIndex = n.entryIndex := by
  unfold setChild
  split <;> exact ⟨rfl, rfl, rfl, rfl⟩

/-- Putting a child in place of its namesake, or adding it: the two ways a section changes. -/
theorem setChild_cases (h : n.Indexed) (c : Node) :
    (c.name ∉ n.childNames ∧ n.setChild c = n.addChild c)
      ∨ ∃ before old after, n.sections = before ++ old :: after ∧ c.name = old.name
          ∧ n.setChild c = { n with sections := before ++ c :: after } := by
  by_cases hc : c.name ∈ n.childNames
  · obtain ⟨old, hold, hname⟩ := List.mem_map.mp hc
    obtain ⟨before, after, hsec⟩ := List.append_of_mem hold
    exact Or.inr ⟨before, old, after, hsec, hname.symm, setChild_of_split h hsec hname.symm⟩
  · exact Or.inl ⟨hc, setChild_of_free h hc⟩

/-- With a namesake's place taken over, the children have the names they had. -/
theorem childNames_of_split {before after : List Node} (hsec : n.sections = before ++ d :: after)
    (hname : c.name = d.name) :
    ({ n with sections := before ++ c :: after } : Node).childNames = n.childNames := by
  unfold childNames
  rw [hsec]
  simp [hname]

theorem indexed_setChild (h : n.Indexed) (hkey : c.name ∉ n.keys) : (n.setChild c).Indexed := by
  rcases setChild_cases h c with ⟨hfree, heq⟩ | ⟨before, old, after, hsec, hname, heq⟩
  · rw [heq]
    exact indexed_addChild h fun hc => (List.mem_append.mp hc).elim hkey hfree
  · rw [heq]
    refine ⟨h.entryIndex, ?_, ?_⟩
    · rw [childNames_of_split hsec hname]; exact h.sectionIndex
    · unfold names
      rw [childNames_of_split hsec hname]
      exact h.nodup

theorem mem_sections_setChild (h : n.Indexed) (hd : d ∈ (n.setChild c).sections) :
    d = c ∨ d ∈ n.sections := by
  rcases setChild_cases h c with ⟨_, heq⟩ | ⟨before, old, after, hsec, _, heq⟩
  · rw [heq] at hd
    exact (List.mem_append.mp hd).symm.imp_left List.mem_singleton.mp
  · rw [heq] at hd
    rw [hsec]
    rcases List.mem_append.mp hd with hd | hd
    · exact Or.inr (List.mem_append_left _ hd)
    · exact (List.mem_cons.mp hd).imp_right fun hd =>
        List.mem_append_right _ (List.mem_cons_of_mem _ hd)

theorem tidy_setChild (h : n.Tidy) (hkey : c.name ∉ n.keys) (hname : IsName c.name)
    (hpath : c.path = extend n.path c.name) : (n.setChild c).Tidy := by
  have hframe := setChild_frame n c
  refine ⟨indexed_setChild h.toIndexed hkey, fun e he => ?_, fun d hd => ?_⟩
  · rw [hframe.2.2.1] at he; exact h.entries e he
  · rw [hframe.2.1]
    rcases mem_sections_setChild h.toIndexed hd with rfl | hd
    · exact ⟨hname, hpath⟩
    · exact h.sections d hd

theorem child?_setChild_self (h : n.Indexed) (hkey : c.name ∉ n.keys) :
    (n.setChild c).child? c.name = some c := by
  refine (child?_eq_some_iff (indexed_setChild h hkey)).mpr ⟨?_, rfl⟩
  rcases setChild_cases h c with ⟨_, heq⟩ | ⟨before, old, after, _, _, heq⟩
  · rw [heq]; simp [addChild]
  · rw [heq]; simp

theorem child?_setChild_ne (h : n.Indexed) (hkey : c.name ∉ n.keys) (hx : x ≠ c.name) :
    (n.setChild c).child? x = n.child? x := by
  have h' := indexed_setChild h hkey
  ext d
  rw [child?_eq_some_iff h', child?_eq_some_iff h]
  refine and_congr_left fun hd => ?_
  have hdc : d ≠ c := fun he => hx (by rw [← hd, he])
  refine ⟨fun hm => (mem_sections_setChild h hm).resolve_left hdc, fun hm => ?_⟩
  rcases setChild_cases h c with ⟨_, heq⟩ | ⟨before, old, after, hsec, hname, heq⟩
  · rw [heq]; exact List.mem_append_left _ hm
  · have hdo : d ≠ old := fun he => hx (by rw [← hd, he, hname])
    rw [heq]
    rw [hsec] at hm
    rcases List.mem_append.mp hm with hm | hm
    · exact List.mem_append_left _ hm
    · exact List.mem_append_right _
        (List.mem_cons_of_mem _ ((List.mem_cons.mp hm).resolve_left hdo))

/-- The later of two namesakes stays. -/
theorem setChild_setChild (h : n.Indexed) (hkey : c.name ∉ n.keys) (hname : d.name = c.name) :
    (n.setChild c).setChild d = n.setChild d := by
  have h' := indexed_setChild h hkey
  rcases setChild_cases h c with ⟨hfree, heq⟩ | ⟨before, old, after, hsec, hold, heq⟩
  · rw [heq] at h' ⊢
    rw [setChild_of_free h (hname ▸ hfree),
      setChild_of_split h' (show (n.addChild c).sections = n.sections ++ c :: [] from rfl) hname]
    simp [addChild, hname]
  · rw [heq] at h' ⊢
    have hsec' : ({ n with sections := before ++ c :: after } : Node).sections
        = before ++ c :: after := rfl
    rw [setChild_of_split h hsec (hname.trans hold), setChild_of_split h' hsec' hname]

end Node

end PacedNet.Config
