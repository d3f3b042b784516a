import PacedNet.Proofs.Config.Section

/-!
# Trees of tidy sections

A tree is **sound** when every section in it is tidy. Everything that builds
trees goes through `modifyAt`, which changes one section and puts it back on the
way up; this file says what such a change does to the tree.

* The changed section is found where the change was made, and all others are
  found as they were (`at?_modifyAt`, `at?_modifyAt_frame`).
* Two changes at one place are one change (`modifyAt_modifyAt`), and a change
  further down is a change of the section above it (`modifyAt_append`).
* A sound section in the place of another keeps the tree sound
  (`sound_modifyAt`).
-/

namespace PacedNet.Config.Node

/-- Induction over trees: a property that passes from the children to their parent holds. -/
theorem induct {motive : Node → Prop} (step : ∀ n, (∀ c ∈ n.sections, motive c) → motive n) :
    ∀ n, motive n := by
  intro n
  refine @Node.rec motive (fun l => ∀ c ∈ l, motive c) ?_ ?_ ?_ n
  · intro _ _ _ _ sections _ ih
    exact step _ ih
  · intro c hc
    exact absurd hc (by simp)
  · intro _ _ ihn ihl c hc
    rcases List.mem_cons.mp hc with rfl | hc
    · exact ihn
    · exact ihl c hc

/-- Every section of the tree is tidy. -/
inductive Sound : Node → Prop where
  | intro {n : Node} : n.Tidy → (∀ c ∈ n.sections, Sound c) → Sound n

/-- The section at a list of names, if there is one. -/
def at? : List String → Node → Option Node
  | [], n => some n
  | x :: xs, n => (n.child? x).bind (at? xs)

variable {n c p t : Node} {x : String} {ps qs : List String} {f g : Node → Node}

theorem Sound.tidy (h : Sound n) : n.Tidy := by cases h with | intro h _ => exact h

theorem Sound.indexed (h : Sound n) : n.Indexed := h.tidy.toIndexed

theorem Sound.children (h : Sound n) : ∀ c ∈ n.sections, Sound c := by
  cases h with | intro _ h => exact h

theorem sound_emptyBelow (path name : String) : Sound (emptyBelow path name) :=
  .intro ⟨⟨rfl, rfl, List.nodup_nil⟩, by simp [emptyBelow, root], by simp [emptyBelow, root]⟩
    (by simp [emptyBelow, root])

theorem sound_root : Sound root :=
  .intro ⟨⟨rfl, rfl, List.nodup_nil⟩, by simp [root], by simp [root]⟩ (by simp [root])

/-- What a sound section says of a child that it finds. -/
theorem Sound.child (h : Sound n) (hc : n.child? x = some c) :
    Sound c ∧ c.name = x ∧ x ∉ n.keys ∧ IsName x ∧ c.path = extend n.path x := by
  obtain ⟨hmem, rfl⟩ := (child?_eq_some_iff h.indexed).mp hc
  obtain ⟨hname, hpath⟩ := h.tidy.sections c hmem
  refine ⟨h.children c hmem, rfl, fun hk => ?_, hname, hpath⟩
  exact (List.nodup_append.mp h.indexed.nodup).2.2 _ hk _ (List.mem_map_of_mem hmem) rfl

theorem childOrNew_of_child? (hc : n.child? x = some c) : n.childOrNew x = c := by
  unfold childOrNew
  rw [hc]
  rfl

theorem childOrNew_of_none (hc : n.child? x = none) : n.childOrNew x = emptyBelow n.path x := by
  unfold childOrNew
  rw [hc]
  rfl

/-- A child, found or new, is sound and stands below its parent's path. -/
theorem Sound.childOrNew (h : Sound n) (x : String) :
    Sound (n.childOrNew x) ∧ (n.childOrNew x).name = x
      ∧ (n.childOrNew x).path = extend n.path x := by
  cases hc : n.child? x with
  | some c =>
      rw [childOrNew_of_child? hc]
      obtain ⟨h1, h2, _, _, h3⟩ := h.child hc
      exact ⟨h1, h2, h3⟩
  | none =>
      rw [childOrNew_of_none hc]
      exact ⟨sound_emptyBelow _ _, rfl, rfl⟩

theorem sound_setChild (h : Sound n) (hc : Sound c) (hkey : c.name ∉ n.keys)
    (hname : IsName c.name) (hpath : c.path = extend n.path c.name) : Sound (n.setChild c) := by
  refine .intro (tidy_setChild h.tidy hkey hname hpath) fun d hd => ?_
  rcases mem_sections_setChild h.indexed hd with rfl | hd
  · exact hc
  · exact h.children d hd

theorem sound_addChild (h : Sound n) (hc : Sound c) (hfree : c.name ∉ n.names)
    (hname : IsName c.name) (hpath : c.path = extend n.path c.name) : Sound (n.addChild c) := by
  refine .intro (tidy_addChild h.tidy hfree hname hpath) fun d hd => ?_
  rcases List.mem_append.mp hd with hd | hd
  · exact h.children d hd
  · rw [List.mem_singleton.mp hd]; exact hc

theorem sound_addEntry {key value : String} (h : Sound n) (hfree : key ∉ n.names)
    (hk : IsKey key) (hv : IsValue value) : Sound (n.addEntry key value) :=
  .intro (tidy_addEntry h.tidy hfree hk hv) h.children

/-! ## Places -/

theorem at?_append : at? (ps ++ qs) n = (at? ps n).bind (at? qs) := by
  induction ps generalizing n with
  | nil => rfl
  | cons x ps ih =>
      show (n.child? x).bind (at? (ps ++ qs)) = ((n.child? x).bind (at? ps)).bind (at? qs)
      cases n.child? x with
      | none => rfl
      | some c => exact ih

theorem at?_cons (hc : n.child? x = some c) : at? (x :: ps) n = at? ps c := by
  show (n.child? x).bind (at? ps) = _
  rw [hc]
  rfl

theorem at?_concat (hp : at? ps n = some p) : at? (ps ++ [x]) n = p.child? x := by
  rw [at?_append, hp]
  show (p.child? x).bind some = _
  cases p.child? x <;> rfl

/-- A place below a first name goes through the child of that name. -/
theorem at?_cons_eq_some (h : at? (x :: ps) n = some p) :
    ∃ c, n.child? x = some c ∧ at? ps c = some p := by
  cases hc : n.child? x with
  | none => rw [at?, hc] at h; exact absurd h (by simp)
  | some c => exact ⟨c, rfl, by rwa [at?_cons hc] at h⟩

/-- What is found in a sound tree is sound. -/
theorem Sound.at? (h : Sound n) (hp : at? ps n = some p) : Sound p := by
  induction ps generalizing n with
  | nil => injection hp with hp; exact hp ▸ h
  | cons x ps ih =>
      obtain ⟨c, hc, hp⟩ := at?_cons_eq_some hp
      exact ih (h.child hc).1 hp

theorem nodeAt_of_at? (hp : Node.at? ps n = some p) : nodeAt ps n = p := by
  induction ps generalizing n with
  | nil => injection hp
  | cons x ps ih =>
      obtain ⟨c, hc, hp⟩ := at?_cons_eq_some hp
      show nodeAt ps (n.childOrNew x) = p
      rw [childOrNew_of_child? hc]
      exact ih hp

/-- Names that are there make a path that is. -/
theorem intercalate_eq_empty (hps : ∀ x ∈ ps, IsName x) : ".".intercalate ps = "" ↔ ps = [] := by
  refine ⟨fun h => ?_, fun h => by rw [h]; rfl⟩
  cases ps with
  | nil => rfl
  | cons x rest =>
      have hx := (hps x List.mem_cons_self).nonempty
      cases rest with
      | nil => exact absurd (by simpa using h) hx
      | cons y rest =>
          -- the first name alone makes the path longer than nothing
          rw [String.intercalate_cons_cons, String.append_eq_empty_iff,
            String.append_eq_empty_iff] at h
          exact absurd h.1.1 hx

theorem isName_concat (hps : ∀ y ∈ ps, IsName y) (hx : IsName x) : ∀ y ∈ ps ++ [x], IsName y := by
  intro y hy
  rcases List.mem_append.mp hy with hy | hy
  · exact hps y hy
  · rw [List.mem_singleton.mp hy]
    exact hx

/-- A path is extended as the list of its names is. -/
theorem extend_intercalate (hps : ∀ x ∈ ps, IsName x) (x : String) :
    extend (".".intercalate ps) x = ".".intercalate (ps ++ [x]) := by
  unfold extend
  by_cases hne : ps = []
  · subst hne; rfl
  · have hpath : (".".intercalate ps).isEmpty = false := by
      rw [← Bool.not_eq_true, String.isEmpty_iff, intercalate_eq_empty hps]
      exact hne
    rw [hpath, String.intercalate_append_of_ne_nil hne (by simp), String.intercalate_singleton]
    rfl

/-- A section's path is made of the names that lead to it. -/
theorem Sound.path_at? (h : Sound n) (hqs : ∀ x ∈ qs, IsName x)
    (hpath : n.path = ".".intercalate qs) (hp : Node.at? ps n = some p) :
    p.path = ".".intercalate (qs ++ ps) := by
  induction ps generalizing n qs with
  | nil => injection hp with hp; subst hp; rw [hpath, List.append_nil]
  | cons x ps ih =>
      obtain ⟨c, hc, hcp⟩ := at?_cons_eq_some hp
      obtain ⟨hsound, -, -, hname, hcpath⟩ := h.child hc
      rw [← List.singleton_append, ← List.append_assoc]
      have hbelow : c.path = ".".intercalate (qs ++ [x]) := by
        rw [hcpath, hpath, extend_intercalate hqs]
      exact ih hsound (isName_concat hqs hname) hbelow hcp

/-! ## Changes -/

theorem modifyAt_append (f : Node → Node) (ps qs : List String) (n : Node) :
    modifyAt f (ps ++ qs) n = modifyAt (modifyAt f qs) ps n := by
  induction ps generalizing n with
  | nil => rfl
  | cons x ps ih =>
      show n.setChild (modifyAt f (ps ++ qs) _) = n.setChild (modifyAt (modifyAt f qs) ps _)
      rw [ih]

/-- A change that keeps names keeps them from wherever it is made. -/
theorem name_modifyAt (hf : ∀ m, (f m).name = m.name) (ps : List String) (n : Node) :
    (modifyAt f ps n).name = n.name := by
  cases ps with
  | nil => exact hf n
  | cons x ps => exact (setChild_frame n _).1

theorem path_modifyAt (hf : ∀ m, (f m).path = m.path) (ps : List String) (n : Node) :
    (modifyAt f ps n).path = n.path := by
  cases ps with
  | nil => exact hf n
  | cons x ps => exact (setChild_frame n _).2.1

theorem modifyAt_cons (hc : n.child? x = some c) :
    modifyAt f (x :: ps) n = n.setChild (modifyAt f ps c) := by
  show n.setChild (modifyAt f ps (n.childOrNew x)) = _
  rw [childOrNew_of_child? hc]

/-- The child that a change is made in is found where it was. -/
theorem child?_setChild_modifyAt (h : Sound n) (hf : ∀ m, (f m).name = m.name)
    (hc : n.child? x = some c) :
    (n.setChild (modifyAt f ps c)).child? x = some (modifyAt f ps c) := by
  obtain ⟨-, rfl, hkey, -, -⟩ := h.child hc
  have hname : (modifyAt f ps c).name = c.name := name_modifyAt hf ps c
  have hself := child?_setChild_self (c := modifyAt f ps c) h.indexed (by rwa [hname])
  rwa [hname] at hself

/-- Only what a change does to the section it is made to matters. -/
theorem modifyAt_congr (hp : at? ps n = some p) (hfg : f p = g p) :
    modifyAt f ps n = modifyAt g ps n := by
  induction ps generalizing n with
  | nil => injection hp with hp; subst hp; exact hfg
  | cons x ps ih =>
      obtain ⟨c, hc, hp⟩ := at?_cons_eq_some hp
      rw [modifyAt_cons hc, modifyAt_cons hc, ih hp]

/-- The changed section is found where the change was made. -/
theorem at?_modifyAt (h : Sound n) (hf : ∀ m, (f m).name = m.name) (hp : at? ps n = some p) :
    at? ps (modifyAt f ps n) = some (f p) := by
  induction ps generalizing n with
  | nil => injection hp with hp; subst hp; rfl
  | cons x ps ih =>
      obtain ⟨c, hc, hcp⟩ := at?_cons_eq_some hp
      rw [modifyAt_cons hc, at?_cons (child?_setChild_modifyAt h hf hc)]
      exact ih (h.child hc).1 hcp

/-- Two changes at one place are one. -/
theorem modifyAt_modifyAt (h : Sound n) (hf : ∀ m, (f m).name = m.name)
    (hg : ∀ m, (g m).name = m.name) (hp : at? ps n = some p) :
    modifyAt f ps (modifyAt g ps n) = modifyAt (f ∘ g) ps n := by
  induction ps generalizing n with
  | nil => rfl
  | cons x ps ih =>
      obtain ⟨c, hc, hcp⟩ := at?_cons_eq_some hp
      obtain ⟨hsound, rfl, hkey, -, -⟩ := h.child hc
      have hname : (modifyAt g ps c).name = c.name := name_modifyAt hg ps c
      have hboth : (modifyAt (f ∘ g) ps c).name = c.name :=
        name_modifyAt (fun m => by rw [Function.comp, hf, hg]) ps c
      rw [modifyAt_cons hc, modifyAt_cons (child?_setChild_modifyAt h hg hc), modifyAt_cons hc,
        ih hsound hcp]
      exact setChild_setChild h.indexed (by rwa [hname]) (hboth.trans hname.symm)

/-- A sound section in the place of another keeps the tree sound. -/
theorem sound_modifyAt (h : Sound n) (hf : ∀ m, (f m).name = m.name)
    (hfp : ∀ m, (f m).path = m.path) (hp : at? ps n = some p) (hs : Sound (f p)) :
    Sound (modifyAt f ps n) := by
  induction ps generalizing n with
  | nil => injection hp with hp; subst hp; exact hs
  | cons x ps ih =>
      obtain ⟨c, hc, hcp⟩ := at?_cons_eq_some hp
      obtain ⟨hsound, rfl, hkey, hname, hpath⟩ := h.child hc
      have hn := name_modifyAt hf ps c
      rw [modifyAt_cons hc]
      refine sound_setChild h (ih hsound hcp) ?_ ?_ ?_
      · rwa [hn]
      · rwa [hn]
      · rw [path_modifyAt hfp, hn, hpath]

/-- A change that takes no child away leaves every section in place that it was not made in, nor
in one above. -/
theorem at?_modifyAt_frame {q : Node} (h : Sound n) (hf : ∀ m, (f m).name = m.name)
    (hq : at? qs n = some q) (keep : ∀ x c, q.child? x = some c → (f q).child? x = some c)
    (hps : ¬ ps <+: qs) (hp : at? ps n = some p) : at? ps (modifyAt f qs n) = some p := by
  induction qs generalizing n ps with
  | nil =>
      injection hq with hq
      subst hq
      cases ps with
      | nil => exact absurd (List.prefix_refl []) hps
      | cons x ps =>
          obtain ⟨c, hc, hcp⟩ := at?_cons_eq_some hp
          exact (at?_cons (keep x c hc)).trans hcp
  | cons y qs ih =>
      obtain ⟨d, hd, hdq⟩ := at?_cons_eq_some hq
      obtain ⟨hsound, rfl, hkey, -, -⟩ := h.child hd
      have hname : (modifyAt f qs d).name = d.name := name_modifyAt hf qs d
      cases ps with
      | nil => exact absurd List.nil_prefix hps
      | cons x ps =>
          obtain ⟨c, hc, hcp⟩ := at?_cons_eq_some hp
          rw [modifyAt_cons hd]
          by_cases hx : x = d.name
          · -- the same child: the change is made further down
            subst hx
            rw [hd] at hc
            injection hc with hc
            subst hc
            have hpre : ¬ ps <+: qs := fun hpre => hps ((List.prefix_cons_inj _).mpr hpre)
            rw [at?_cons (child?_setChild_modifyAt h hf hd)]
            exact ih hsound hdq hpre hcp
          · -- another child, which stays where it was
            have hsame := child?_setChild_ne (c := modifyAt f qs d) (x := x) h.indexed
              (by rwa [hname]) (by rwa [hname])
            rw [at?_cons (hsame.trans hc)]
            exact hcp

/-! ## Opening -/

/-- A section is opened below a child, found or new, whose name is no key. -/
theorem openAt_cons_eq_ok (h : openAt (x :: ps) n = .ok t) :
    ¬ n.hasKey x = true ∧ ∃ c, openAt ps (n.childOrNew x) = .ok c ∧ t = n.setChild c := by
  rw [openAt] at h
  split at h
  · exact absurd h (by simp)
  · rename_i hbar
    refine ⟨hbar, ?_⟩
    cases hopen : openAt ps (n.childOrNew x) with
    | error e =>
        rw [hopen] at h
        exact absurd h (by simp [bind, Except.bind])
    | ok c =>
        rw [hopen] at h
        injection h with h
        exact ⟨c, rfl, h.symm⟩

/-- Opening changes nothing but what is missing. -/
theorem openAt_eq_modifyAt (h : openAt ps n = .ok t) : t = modifyAt id ps n := by
  induction ps generalizing n t with
  | nil => injection h with h; exact h.symm
  | cons x ps ih =>
      obtain ⟨-, c, hopen, rfl⟩ := openAt_cons_eq_ok h
      rw [ih hopen]
      rfl

/-- What the child below which a section is opened is to its parent. -/
theorem Sound.of_openAt_cons (h : Sound n) (hbar : ¬ n.hasKey x = true)
    (hopen : openAt ps (n.childOrNew x) = .ok c) :
    c.name = x ∧ c.path = extend n.path x ∧ x ∉ n.keys := by
  obtain ⟨-, hname, hpath⟩ := h.childOrNew x
  have hc := openAt_eq_modifyAt hopen
  refine ⟨?_, ?_, fun hk => hbar ((hasKey_iff h.indexed).mpr hk)⟩
  · rw [hc, name_modifyAt (f := id) (fun _ => rfl), hname]
  · rw [hc, path_modifyAt (f := id) (fun _ => rfl), hpath]

/-- What is opened in a sound tree under proper names leaves it sound. -/
theorem sound_openAt (h : Sound n) (hps : ∀ x ∈ ps, IsName x) (ht : openAt ps n = .ok t) :
    Sound t := by
  induction ps generalizing n t with
  | nil => injection ht with ht; exact ht ▸ h
  | cons x ps ih =>
      obtain ⟨hbar, c, hopen, rfl⟩ := openAt_cons_eq_ok ht
      obtain ⟨rfl, hpath, hkey⟩ := h.of_openAt_cons hbar hopen
      have hc : Sound c :=
        ih (h.childOrNew c.name).1 (fun y hy => hps y (List.mem_cons_of_mem _ hy)) hopen
      exact sound_setChild h hc hkey (hps _ List.mem_cons_self) hpath

/-- Below a section that is there, nothing bars a name that is no key. -/
theorem openAt_concat (h : Sound n) (hp : at? ps n = some p) (hx : x ∉ p.keys) :
    openAt (ps ++ [x]) n = .ok (modifyAt id (ps ++ [x]) n) := by
  induction ps generalizing n with
  | nil =>
      injection hp with hp
      subst hp
      have hbar : ¬ n.hasKey x = true := fun hk => hx ((hasKey_iff h.indexed).mp hk)
      show (if n.hasKey x = true then _ else _) = _
      rw [if_neg hbar]
      rfl
  | cons y ps ih =>
      obtain ⟨c, hc, hp⟩ := at?_cons_eq_some hp
      obtain ⟨hsound, -, hkey, -, -⟩ := h.child hc
      have hbar : ¬ n.hasKey y = true := fun hk => hkey ((hasKey_iff h.indexed).mp hk)
      rw [List.cons_append, openAt, if_neg hbar, childOrNew_of_child? hc, ih hsound hp,
        modifyAt_cons hc]
      rfl

end PacedNet.Config.Node
