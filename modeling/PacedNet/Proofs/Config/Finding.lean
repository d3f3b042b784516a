import PacedNet.Config.Value
import PacedNet.Proofs.Config.Dumping

/-!
# Finding a section by its path

A tree that was read is in order all through: no name has two bearers, each index says where they
stand, and a section's path is its parent's path and its own name (`Node.Ordered`).

So a path leads back to the section that it is the path of. It is cut at its points into the names
on the way there, since no name has a point, and each of them finds one child (`enterPath_path`).
A key without a point finds its value behind the path of its section (`lookup_path`).
-/

namespace PacedNet.Config

namespace Index

/-- The index of names without namesakes says of each name where it stands, and nothing else. -/
theorem find?_ofNames {names : List String} (h : names.Nodup) {x : String} {i : Nat} :
    (ofNames names).find? x = some i ↔ names[i]? = some x := by
  refine ⟨getElem?_of_find?, fun hi => ?_⟩
  obtain ⟨j, hj⟩ :=
    Option.isSome_iff_exists.mp (find?_ofNames_isSome.mpr (List.mem_of_getElem? hi))
  have hat := getElem?_of_find? hj
  have hlt := (List.getElem?_eq_some_iff.mp hat).1
  rw [hj, (List.getElem?_inj hlt h).mp (hat.trans hi.symm)]

end Index

namespace Node

variable {root n c p : Node} {ps : List String}

/-! ## All sections of a tree -/

theorem mem_preorderAll {l : List Node} : n ∈ preorderAll l ↔ ∃ c ∈ l, n ∈ c.preorder := by
  induction l with
  | nil => simp [preorderAll]
  | cons c rest ih => simp [preorderAll, ih]

theorem mem_preorder : n ∈ p.preorder ↔ n = p ∨ ∃ c ∈ p.sections, n ∈ c.preorder := by
  cases p
  rw [preorder, List.mem_cons, mem_preorderAll]

/-- What stands in a sound tree stands at a list of names. -/
theorem Sound.at?_of_mem (h : root.Sound) (hn : n ∈ root.preorder) :
    ∃ ps, root.at? ps = some n := by
  induction root using induct with
  | step p ih =>
      rcases mem_preorder.mp hn with rfl | ⟨c, hc, hn⟩
      · exact ⟨[], rfl⟩
      · obtain ⟨ps, hps⟩ := ih c hc (h.children c hc) hn
        have hchild := (child?_eq_some_iff h.indexed).mpr ⟨hc, rfl⟩
        exact ⟨c.name :: ps, (at?_cons hchild).trans hps⟩

/-- The names on the way to a section are names of sections. -/
theorem Sound.isName_at? (h : root.Sound) (hn : root.at? ps = some n) : ∀ x ∈ ps, IsName x := by
  induction ps generalizing root with
  | nil => simp
  | cons x ps ih =>
      obtain ⟨c, hc, hn⟩ := at?_cons_eq_some hn
      obtain ⟨hsound, -, -, hname, -⟩ := h.child hc
      intro y hy
      rcases List.mem_cons.mp hy with rfl | hy
      · exact hname
      · exact ih hsound hn y hy

theorem Rooted.path_at? (h : root.Rooted) (hn : root.at? ps = some n) :
    n.path = ".".intercalate ps := by
  have hpath : n.path = ".".intercalate ([] ++ ps) := h.sound.path_at? (by simp) h.path hn
  rwa [List.nil_append] at hpath

/-- Only the root has no path. -/
theorem Rooted.path_eq_empty (h : root.Rooted) (hn : root.at? ps = some n) :
    n.path = "" ↔ n = root := by
  constructor
  · intro hpath
    rw [h.path_at? hn, intercalate_eq_empty (h.sound.isName_at? hn)] at hpath
    subst hpath
    injection hn with hn
    exact hn.symm
  · rintro rfl
    exact h.path

/-! ## Going by a path -/

theorem enterAll_cons (x : String) (ps : List String) (n : Node) :
    n.enterAll (x :: ps) = n.enter x >>= fun c => c.enterAll ps := rfl

/-- Entering child after child leads to the section at their names. -/
theorem enterAll_of_at? (hp : root.at? ps = some p) : root.enterAll ps = .ok p := by
  induction ps generalizing root with
  | nil => injection hp with hp; exact congrArg _ hp
  | cons x ps ih =>
      obtain ⟨c, hc, hp⟩ := at?_cons_eq_some hp
      have henter : root.enter x = .ok c := by
        unfold enter
        rw [hc]
      rw [enterAll_cons, henter]
      exact ih hp

/-- A path is cut into the names that it was made of. -/
theorem dotted_intercalate (hne : ps ≠ []) (hps : ∀ x ∈ ps, IsName x) :
    dotted (".".intercalate ps).toList = ps := by
  have hpoint : ∀ s ∈ ps.map String.toList, '.' ∉ s := by
    intro s hs
    obtain ⟨x, hx, rfl⟩ := List.mem_map.mp hs
    exact (hps x hx).noPoint
  unfold dotted
  rw [toList_path, List.splitOn_intercalate '.' hpoint (by simpa using hne), List.map_map]
  conv_rhs => rw [← List.map_id ps]
  refine List.map_congr_left fun x hx => ?_
  rw [Function.comp, Text.trim_of_trimmed (hps x hx).plain.trimmed, String.ofList_toList, id]

/-- **A path leads to its section.** -/
theorem Rooted.enterPath_path (h : root.Rooted) (hn : root.at? ps = some n) (hne : n ≠ root) :
    root.enterPath n.path = .ok n := by
  have hps : ps ≠ [] := by
    rintro rfl
    injection hn with hn
    exact hne hn.symm
  unfold enterPath
  rw [h.path_at? hn, dotted_intercalate hps (h.sound.isName_at? hn)]
  exact enterAll_of_at? hn

/-- A dotted text is looked up section by section and then by its last name. -/
theorem lookup_append (n : Node) (path key : String) (hkey : '.' ∉ key.toList) :
    n.lookup (path ++ "." ++ key) = (do
      let scope ← n.enterPath path
      scope.get (String.ofList (Text.trim key.toList))) := by
  have htext : (path ++ "." ++ key).toList = path.toList ++ '.' :: key.toList := by
    rw [String.toList_append, String.toList_append, List.append_assoc]
    rfl
  have hbehind : ∀ c ∈ key.toList.reverse, decide (c ≠ '.') = true := fun c hc =>
    decide_eq_true fun he => hkey (he ▸ List.mem_reverse.mp hc)
  have hlast : ((path.toList ++ '.' :: key.toList).reverse.takeWhile (· ≠ '.')).reverse
      = key.toList := by
    rw [List.reverse_append, List.reverse_cons, List.append_assoc,
      List.takeWhile_append_of_pos hbehind]
    simp
  have hfirst : (path.toList ++ '.' :: key.toList).take
      ((path.toList ++ '.' :: key.toList).length - key.toList.length - 1) = path.toList := by
    rw [List.length_append, List.length_cons]
    exact List.take_left' (by omega)
  unfold lookup enterPath
  dsimp only
  rw [htext, if_pos (by simp), hlast, hfirst]

theorem get_of_mem {k v : String} (h : n.Indexed) (hkv : (k, v) ∈ n.entries) :
    n.get k = .ok v := by
  unfold get
  rw [(value?_eq_some_iff h).mpr hkv]

/-- **A key is found behind the path of its section.** -/
theorem Rooted.lookup_path (h : root.Rooted) (hn : root.at? ps = some n) (hne : n ≠ root)
    {k v : String} (hkv : (k, v) ∈ n.entries) (hkey : '.' ∉ k.toList) :
    root.lookup (n.path ++ "." ++ k) = .ok v := by
  have hsound := h.sound.at? hn
  have htrimmed := (hsound.tidy.entries _ hkv).1.plain.trimmed
  rw [lookup_append _ _ _ hkey, h.enterPath_path hn hne]
  show n.get (String.ofList (Text.trim k.toList)) = .ok v
  rw [Text.trim_of_trimmed htrimmed, String.ofList_toList]
  exact get_of_mem hsound.indexed hkv

/-! ## What holds all through -/

/-- A section in order: one bearer a name, indexes that say where each stands and know of no other,
and names below it that a path can be made of. -/
structure Ordered (n : Node) : Prop where
  keys : n.keys.Nodup
  childNames : n.childNames.Nodup
  apart : ∀ x ∈ n.keys, x ∉ n.childNames
  entryIndex : ∀ x i, n.entryIndex.find? x = some i ↔ n.keys[i]? = some x
  sectionIndex : ∀ x i, n.sectionIndex.find? x = some i ↔ n.childNames[i]? = some x
  named : ∀ x ∈ n.childNames, x ≠ "" ∧ Text.Trimmed x.toList ∧ '.' ∉ x.toList

theorem Tidy.ordered (h : n.Tidy) : n.Ordered := by
  obtain ⟨hkeys, hnames, hapart⟩ := List.nodup_append.mp h.nodup
  refine ⟨hkeys, hnames, fun x hx hx' => hapart x hx x hx' rfl, fun x i => ?_, fun x i => ?_,
    fun x hx => ?_⟩
  · rw [h.entryIndex]
    exact Index.find?_ofNames hkeys
  · rw [h.sectionIndex]
    exact Index.find?_ofNames hnames
  · obtain ⟨c, hc, rfl⟩ := List.mem_map.mp hx
    have hname := (h.sections c hc).1
    exact ⟨hname.nonempty, hname.plain.trimmed, hname.noPoint⟩

/-- A child's path is its name alone under the root, and its parent's path before its name
elsewhere. -/
theorem Rooted.path_child (h : root.Rooted) (hn : root.at? ps = some n) (hc : c ∈ n.sections) :
    c.path = if n = root then c.name else n.path ++ "." ++ c.name := by
  rw [((h.sound.at? hn).tidy.sections c hc).2]
  unfold extend
  by_cases hroot : n = root
  · rw [if_pos hroot, if_pos (String.isEmpty_iff.mpr ((h.path_eq_empty hn).mpr hroot))]
  · rw [if_neg hroot, if_neg fun he => hroot ((h.path_eq_empty hn).mp (String.isEmpty_iff.mp he))]

end Node

namespace Library

variable {l : Library} {root : Node}

/-- **Every section is in order and found by its path.** Of whatever was read, with all that was
merged into it, each section is in order and knows its path, and its path and those of its keys
lead back to it from the root. -/
theorem gives_ordered (h : l.Gives root) :
    root.name = "" ∧ root.path = "" ∧ ∀ n ∈ root.preorder,
      n.Ordered
        ∧ (∀ c ∈ n.sections, c.path = if n = root then c.name else n.path ++ "." ++ c.name)
        ∧ (n ≠ root → root.enterPath n.path = .ok n
          ∧ ∀ k v, (k, v) ∈ n.entries → '.' ∉ k.toList →
              root.lookup (n.path ++ "." ++ k) = .ok v) := by
  have hroot := rooted_of_gives h
  refine ⟨hroot.name, hroot.path, fun n hn => ?_⟩
  obtain ⟨ps, hps⟩ := hroot.sound.at?_of_mem hn
  exact ⟨(hroot.sound.at? hps).tidy.ordered, fun c hc => hroot.path_child hps hc,
    fun hne => ⟨hroot.enterPath_path hps hne, fun k v hkv hkey =>
      hroot.lookup_path hps hne hkv hkey⟩⟩

/-- A section that came with a source which another source includes. -/
theorem gives_ordered_nested : ∃ root,
    ((empty.register "a" "@include b\n[s]").register "b" "[t.u]\np = 7").parseText
        "[s]\n@include a\nq = 1" = .ok root
      ∧ ∃ n ∈ root.preorder, n.path = "s.t.u" ∧ n.Ordered ∧ root.enterPath "s.t.u" = .ok n
        ∧ root.lookup "s.t.u.p" = .ok "7" := by
  have hall : (((empty.register "a" "@include b\n[s]").register "b" "[t.u]\np = 7").parseText
      "[s]\n@include a\nq = 1").toOption.map (fun root => root.preorder.map fun n =>
        (n.path, n.entries))
      = some [("", []), ("s", [("q", "1")]), ("s.s", []), ("s.t", []),
        ("s.t.u", [("p", "7")])] := by
    decide +kernel
  obtain ⟨root, hroot, hall⟩ := Option.map_eq_some_iff.mp hall
  have hread := eq_ok_of_toOption hroot
  have hmem : ("s.t.u", [("p", "7")]) ∈ root.preorder.map fun n => (n.path, n.entries) := by
    rw [hall]
    simp
  obtain ⟨n, hn, hat⟩ := List.mem_map.mp hmem
  injection hat with hpath hentries
  obtain ⟨-, hempty, hordered⟩ := gives_ordered (Or.inl ⟨_, hread⟩)
  obtain ⟨hn', -, hfound⟩ := hordered n hn
  have hne : n ≠ root := by
    rintro rfl
    exact absurd (hempty.symm.trans hpath) (by decide)
  obtain ⟨henter, hlookup⟩ := hfound hne
  have hkey := hlookup "p" "7" (by rw [hentries]; simp) (by decide)
  rw [hpath] at henter hkey
  exact ⟨root, hread, n, hn, hpath, hn', henter, hkey⟩

end Library

end PacedNet.Config
