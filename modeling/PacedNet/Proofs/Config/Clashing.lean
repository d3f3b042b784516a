import PacedNet.Proofs.Config.Declaring
import PacedNet.Proofs.Config.Including
import PacedNet.Proofs.Config.Phrasing

/-!
# Names with two meanings

In a section a name means one thing: an entry or a child, made once. Whether a text keeps to that,
its records tell (`Consistent`), without regard to their order and with no tree in between; where it
does not, there is a **clash**.

Reading looks at one record at a time, in two ways: a heading must be new and find no key on its way
down the tree, an entry must find its name free in the tree. Together they are the rule. While all is
well the tree shows what the records declare, and a sound tree has no two bearers of a name
(`consistent_of_foldlM`); a record that is refused makes a clash, which is the only one and the one
that is reported (`apply_clash`). So a text can be read exactly when its lines are lawful, and the
error otherwise is about the first line that is not (`parseText_lawful`).
-/

namespace PacedNet.Config

/-- The keys of a text's entries in a section. -/
def localKeys (rs : List Line) (ps : List String) : List String := (localEntries rs ps).map Prod.fst

/-- No heading is written twice, no key has two entries, and none names a child as well. -/
structure Consistent (rs : List Line) : Prop where
  headings : (headings rs).Nodup
  keys : ∀ ps, (localKeys rs ps).Nodup
  apart : ∀ ps, ∀ x ∈ localKeys rs ps, ¬ Opens rs (ps ++ [x])

/-- In a section, a name gets two meanings. -/
inductive Clash (rs : List Line) (ps : List String) (x : String) : Prop where
  | headings : 2 ≤ (headings rs).count (ps ++ [x]) → Clash rs ps x
  | keys : 2 ≤ (localKeys rs ps).count x → Clash rs ps x
  | apart : x ∈ localKeys rs ps → Opens rs (ps ++ [x]) → Clash rs ps x

variable {rs more : List Line} {r : Line} {ps qs names : List String} {x key value : String}

/-! ## Records one after the other -/

theorem headings_append (rs more : List Line) :
    headings (rs ++ more) = headings rs ++ headings more := List.filterMap_append

/-- What is placed stands under the last heading so far. -/
theorem placed_append (current : List String) (rs more : List Line) :
    placed current (rs ++ more)
      = placed current rs ++ placed ((headings rs).getLast?.getD current) more := by
  induction rs generalizing current with
  | nil => rfl
  | cons r rest ih =>
      have hlast : (headings (r :: rest)).getLast?.getD current
          = (headings rest).getLast?.getD (r.heading?.getD current) := by
        cases hr : r.heading? with
        | none => simp [headings, hr]
        | some names => simp [headings, hr, List.getLast?_cons]
      rw [List.cons_append, placed, placed, ih, hlast, List.cons_append]

theorem localKeys_append (rs more : List Line) (ps : List String) :
    localKeys (rs ++ more) ps = localKeys rs ps
      ++ (standing Line.entry? ps (placed ((headings rs).getLast?.getD []) more)).map Prod.fst := by
  unfold localKeys localEntries standing
  rw [placed_append, List.filterMap_append, List.map_append]

theorem localKeys_heading (rs : List Line) (names ps : List String) :
    localKeys (rs ++ [.heading names]) ps = localKeys rs ps := by
  rw [localKeys_append]
  simp [standing, placed, Line.entry?]

theorem localKeys_entry (rs : List Line) (key value : String) (ps : List String) :
    localKeys (rs ++ [.entry key value]) ps
      = localKeys rs ps ++ if (headings rs).getLast?.getD [] = ps then [key] else [] := by
  rw [localKeys_append]
  by_cases hps : (headings rs).getLast?.getD [] = ps
  · simp [standing, placed, Line.entry?, Line.heading?, hps]
  · simp [standing, placed, Line.entry?, Line.heading?, hps]

theorem Opens.append (h : Opens rs ps) (more : List Line) : Opens (rs ++ more) ps := by
  refine h.imp_right ?_
  rintro ⟨names, hnames, hps⟩
  exact ⟨names, headings_append rs more ▸ List.mem_append_left _ hnames, hps⟩

theorem Opens.above (h : Opens rs qs) (hps : ps <+: qs) : Opens rs ps := by
  rcases h with rfl | ⟨names, hnames, hqs⟩
  · exact Or.inl (List.prefix_nil.mp hps)
  · exact Or.inr ⟨names, hnames, hps.trans hqs⟩

theorem opens_heading : Opens (rs ++ [.heading names]) ps ↔ Opens rs ps ∨ ps <+: names := by
  unfold Opens
  rw [headings_append]
  simp [headings, Line.heading?, or_assoc, or_and_right, exists_or]

/-- Where there is a key there is a section. -/
theorem opens_of_mem_localKeys (h : x ∈ localKeys rs ps) : Opens rs ps := by
  have hplaced (current : List String) (rs : List Line) (p : List String × Line)
      (hp : p ∈ placed current rs) : p.1 = current ∨ p.1 ∈ headings rs := by
    induction rs generalizing current with
    | nil => exact absurd hp (by simp [placed])
    | cons r rest ih =>
        have hhead : headings (r :: rest) = r.heading?.toList ++ headings rest := by
          rw [← headings_singleton, ← headings_append]
          rfl
        rw [hhead, List.mem_append]
        rcases List.mem_cons.mp hp with rfl | hp
        · cases r.heading? <;> simp
        · rcases ih _ hp with hp | hp
          · rw [hp]
            cases r.heading? <;> simp
          · exact Or.inr (Or.inr hp)
  obtain ⟨e, he, -⟩ := List.mem_map.mp h
  obtain ⟨p, hp, hentry⟩ := List.mem_filterMap.mp he
  have hps : p.1 = ps := by
    by_contra hne
    rw [if_neg hne] at hentry
    exact absurd hentry (by simp)
  rcases hplaced [] rs p hp with hnil | hmem
  · exact Or.inl (hps ▸ hnil)
  · exact Or.inr ⟨p.1, hmem, hps ▸ List.prefix_refl _⟩

/-! ## Clashes -/

/-- What clashes goes on clashing. -/
theorem Clash.append (h : Clash rs ps x) (more : List Line) : Clash (rs ++ more) ps x := by
  cases h with
  | headings h =>
      refine .headings (h.trans ?_)
      rw [headings_append, List.count_append]
      exact Nat.le_add_right _ _
  | keys h =>
      refine .keys (h.trans ?_)
      rw [localKeys_append, List.count_append]
      exact Nat.le_add_right _ _
  | apart hx hps =>
      refine .apart ?_ (hps.append more)
      rw [localKeys_append]
      exact List.mem_append_left _ hx

theorem Consistent.not_clash (h : Consistent rs) (ps : List String) (x : String) :
    ¬ Clash rs ps x := by
  rintro (hcount | hcount | ⟨hx, hps⟩)
  · have := List.nodup_iff_count_le_one.mp h.headings (ps ++ [x])
    omega
  · have := List.nodup_iff_count_le_one.mp (h.keys ps) x
    omega
  · exact h.apart ps x hx hps

/-- A clash at one place only. -/
def OnlyClash (rs : List Line) (ps : List String) (x : String) : Prop :=
  ∀ ps' x', Clash rs ps' x' ↔ ps' = ps ∧ x' = x

theorem Consistent.of_append (h : Consistent (rs ++ more)) : Consistent rs := by
  refine ⟨?_, fun ps => ?_, fun ps x hx hps => ?_⟩
  · have hall := h.headings
    rw [headings_append] at hall
    exact (List.nodup_append.mp hall).1
  · have hall := h.keys ps
    rw [localKeys_append] at hall
    exact (List.nodup_append.mp hall).1
  · exact h.not_clash ps x ((Clash.apart hx hps).append more)

/-- A heading that was written before is the only clash. -/
theorem onlyClash_of_declared (h : Consistent rs) (hnames : ps ++ [x] ∈ headings rs) :
    OnlyClash (rs ++ [.heading (ps ++ [x])]) ps x := by
  intro ps' x'
  constructor
  · rintro (hcount | hcount | ⟨hx, hps⟩)
    · by_contra hne
      have hother : ps ++ [x] ≠ ps' ++ [x'] := fun he => by
        obtain ⟨hps, hx⟩ := List.append_inj' he rfl
        exact hne ⟨hps.symm, (List.cons.inj hx).1.symm⟩
      refine h.not_clash ps' x' (.headings ?_)
      simpa [headings_append, headings, Line.heading?, List.count_cons, hother] using hcount
    · rw [localKeys_heading] at hcount
      exact absurd (.keys hcount) (h.not_clash ps' x')
    · -- the heading opens nothing that is not open
      rw [localKeys_heading] at hx
      have hopen : Opens rs (ps' ++ [x']) := by
        rcases opens_heading.mp hps with hopen | hpre
        · exact hopen
        · exact Or.inr ⟨_, hnames, hpre⟩
      exact absurd (.apart hx hopen) (h.not_clash ps' x')
  · rintro ⟨rfl, rfl⟩
    refine .headings ?_
    have hone := List.count_pos_iff.mpr hnames
    rw [headings_append, List.count_append]
    simp only [headings_singleton, Line.heading?, Option.toList_some, List.count_singleton_self]
    omega

/-- No section is below a key, and so no key. -/
theorem Consistent.not_below (h : Consistent rs) {y : String} (hx : x ∈ localKeys rs ps)
    (hy : y ∈ localKeys rs qs) : ¬ ps ++ [x] <+: qs := by
  intro hpre
  exact h.apart ps x hx ((opens_of_mem_localKeys hy).above hpre)

/-- A key on the way of a new heading is the only clash. -/
theorem onlyClash_of_barred (h : Consistent rs) (hnew : names ∉ headings rs)
    (hps : ps ++ [x] <+: names) (hx : x ∈ localKeys rs ps) :
    OnlyClash (rs ++ [.heading names]) ps x := by
  intro ps' x'
  constructor
  · rintro (hcount | hcount | ⟨hx', hopen⟩)
    · have hnodup : (headings (rs ++ [.heading names])).Nodup := by
        rw [headings_append]
        simpa [Line.heading?] using h.headings.concat hnew
      have := List.nodup_iff_count_le_one.mp hnodup (ps' ++ [x'])
      omega
    · rw [localKeys_heading] at hcount
      exact absurd (.keys hcount) (h.not_clash ps' x')
    · rw [localKeys_heading] at hx'
      have hps' : ps' ++ [x'] <+: names := by
        rcases opens_heading.mp hopen with hopen | hpre
        · exact absurd hopen (h.apart ps' x' hx')
        · exact hpre
      -- of two such keys on the way the lower one would be below the other
      have hsame : ps ++ [x] = ps' ++ [x'] := by
        rcases List.prefix_or_prefix_of_prefix hps hps' with hpre | hpre
        · exact (List.prefix_concat_iff.mp hpre).resolve_right (h.not_below hx hx')
        · exact ((List.prefix_concat_iff.mp hpre).resolve_right (h.not_below hx' hx)).symm
      obtain ⟨hsame, hlast⟩ := List.append_inj' hsame rfl
      exact ⟨hsame.symm, (List.cons.inj hlast).1.symm⟩
  · rintro ⟨rfl, rfl⟩
    exact .apart (by rwa [localKeys_heading]) (opens_heading.mpr (Or.inr hps))

/-- An entry under a name that is taken is the only clash. -/
theorem onlyClash_of_taken (h : Consistent rs) (hps : (headings rs).getLast?.getD [] = ps)
    (hkey : key ∈ localKeys rs ps ∨ Opens rs (ps ++ [key])) :
    OnlyClash (rs ++ [.entry key value]) ps key := by
  have hheadings : headings (rs ++ [.entry key value]) = headings rs := by
    rw [headings_append]
    simp [Line.heading?]
  have hopens (qs : List String) : Opens (rs ++ [.entry key value]) qs ↔ Opens rs qs := by
    unfold Opens
    rw [hheadings]
  have hkeys (qs : List String) : localKeys (rs ++ [.entry key value]) qs
      = localKeys rs qs ++ if ps = qs then [key] else [] := by
    rw [localKeys_entry, hps]
  intro ps' x'
  by_cases hsame : ps' = ps ∧ x' = key
  · obtain ⟨rfl, rfl⟩ := hsame
    refine iff_of_true ?_ ⟨rfl, rfl⟩
    rcases hkey with hkey | hkey
    · refine .keys ?_
      have hone := List.count_pos_iff.mpr hkey
      rw [hkeys, if_pos rfl, List.count_append, List.count_singleton_self]
      omega
    · exact .apart (by rw [hkeys, if_pos rfl]; simp) ((hopens _).mpr hkey)
  · -- elsewhere, or under another name, nothing is new
    have hcount : (localKeys (rs ++ [.entry key value]) ps').count x'
        = (localKeys rs ps').count x' := by
      rw [hkeys, List.count_append]
      by_cases hp : ps = ps'
      · have hne : key ≠ x' := fun he => hsame ⟨hp.symm, he.symm⟩
        rw [if_pos hp, List.count_singleton]
        simp [hne]
      · rw [if_neg hp, List.count_nil, Nat.add_zero]
    refine iff_of_false ?_ hsame
    rintro (hclash | hclash | ⟨hx, hopen⟩)
    · exact h.not_clash ps' x' (.headings (hheadings ▸ hclash))
    · exact h.not_clash ps' x' (.keys (hcount ▸ hclash))
    · have hpos := List.count_pos_iff.mpr hx
      rw [hcount] at hpos
      exact h.apart ps' x' (List.count_pos_iff.mp hpos) ((hopens _).mp hopen)

/-! ## What the tree knows of it -/

namespace Node

variable {n : Node} {scope : String}

theorem Sound.nodeAt (h : Sound n) (ps : List String) : Sound (nodeAt ps n) := by
  induction ps generalizing n with
  | nil => exact h
  | cons x ps ih => exact ih (h.childOrNew x).1

/-- The path of a place is made of the names that lead there, even where nothing is. -/
theorem Sound.path_nodeAt (h : Sound n) (hqs : ∀ x ∈ qs, IsName x) (hps : ∀ x ∈ ps, IsName x)
    (hpath : n.path = ".".intercalate qs) :
    (Node.nodeAt ps n).path = ".".intercalate (qs ++ ps) := by
  induction ps generalizing n qs with
  | nil => rw [List.append_nil]; exact hpath
  | cons x ps ih =>
      obtain ⟨hx, hps⟩ := List.forall_mem_cons.mp hps
      obtain ⟨hsound, -, hbelow⟩ := h.childOrNew x
      rw [hpath, extend_intercalate hqs] at hbelow
      rw [← List.singleton_append, ← List.append_assoc]
      exact ih hsound (isName_concat hqs hx) hps hbelow

/-- Opening is barred by a key on the way only. -/
theorem openAt_eq_error (h : Sound n) (ht : openAt names n = .error (scope, key)) :
    ∃ ps, ps ++ [key] <+: names ∧ key ∈ (nodeAt ps n).keys ∧ scope = (nodeAt ps n).path := by
  induction names generalizing n with
  | nil => exact absurd ht (by simp [openAt])
  | cons y names ih =>
      rw [openAt] at ht
      by_cases hkey : n.hasKey y
      · rw [if_pos hkey] at ht
        injection ht with ht
        injection ht with hscope hy
        subst hscope hy
        exact ⟨[], by simp, (hasKey_iff h.indexed).mp hkey, rfl⟩
      · rw [if_neg hkey] at ht
        cases hopen : openAt names (n.childOrNew y) with
        | ok t =>
            rw [hopen] at ht
            exact absurd ht (by simp [bind, Except.bind, pure, Except.pure])
        | error e =>
            rw [hopen] at ht
            injection ht with ht
            subst ht
            obtain ⟨ps, hps, hmem, hscope⟩ := ih (h.childOrNew y).1 hopen
            exact ⟨y :: ps, by simpa using hps, hmem, hscope⟩

end Node

namespace Scan

variable {s s' : Scan}

/-- One record leaves its marks: the section that is open, and the headings that were declared. -/
theorem marks_apply (h : s.apply r = .ok s') : s'.current = r.heading?.getD s.current
    ∧ s'.declared = s.declared ++ r.heading?.toList
    ∧ ∀ names, r.heading? = some names → names ∉ s.declared := by
  cases r with
  | heading names =>
      obtain ⟨hnew, root, -, rfl⟩ := heading_eq_ok h
      refine ⟨rfl, rfl, fun names' hnames => ?_⟩
      injection hnames with hnames
      exact hnames ▸ hnew
  | entry key value =>
      obtain ⟨-, rfl⟩ := entry_eq_ok h
      exact ⟨rfl, (List.append_nil _).symm, by simp [Line.heading?]⟩
  | _ =>
      injection h with h
      subst h
      exact ⟨rfl, (List.append_nil _).symm, by simp [Line.heading?]⟩

theorem marks_foldlM (h : rs.foldlM apply s = .ok s') :
    s'.current = (headings rs).getLast?.getD s.current
      ∧ s'.declared = s.declared ++ headings rs
      ∧ (s.declared.Nodup → s'.declared.Nodup) := by
  induction rs generalizing s with
  | nil =>
      injection h with h
      subst h
      exact ⟨rfl, (List.append_nil _).symm, id⟩
  | cons r rest ih =>
      rw [List.foldlM_cons] at h
      cases hstep : s.apply r with
      | error breach => rw [hstep] at h; exact absurd h (by simp [bind, Except.bind])
      | ok m =>
          rw [hstep] at h
          obtain ⟨hcur, hdec, hnew⟩ := marks_apply hstep
          obtain ⟨hcur', hdec', hnodup⟩ := ih h
          rw [hcur] at hcur'
          rw [hdec] at hdec' hnodup
          cases hr : r.heading? with
          | none =>
              rw [hr] at hcur' hdec' hnodup
              exact ⟨by simpa [headings, hr] using hcur', by simpa [headings, hr] using hdec',
                by simpa using hnodup⟩
          | some names =>
              rw [hr] at hcur' hdec' hnodup
              refine ⟨by simpa [headings, hr, List.getLast?_cons] using hcur',
                by simpa [headings, hr] using hdec', fun hall => hnodup ?_⟩
              simpa using hall.concat (hnew names hr)

/-- **What could be read is consistent.** -/
theorem consistent_of_foldlM (hr : ∀ r ∈ rs, r.Shaped) (h : rs.foldlM apply start = .ok s) :
    Consistent rs := by
  obtain ⟨-, hdec, hnodup⟩ := marks_foldlM h
  have hnames (ps : List String) : (localKeys rs ps ++ localSections rs ps).Nodup := by
    obtain ⟨hent, hsec⟩ := nodeAt_foldlM hr h ps
    have := ((sound_foldlM hr sound_start h).rooted.sound.nodeAt ps).indexed.nodup
    unfold Node.names Node.keys at this
    rwa [hent, hsec] at this
  refine ⟨?_, fun ps => (List.nodup_append.mp (hnames ps)).1, fun ps x hx hopen => ?_⟩
  · have hall := hnodup List.nodup_nil
    rw [hdec] at hall
    exact hall
  · exact (List.nodup_append.mp (hnames ps)).2.2 x hx x (mem_localSections.mpr hopen) rfl

theorem keys_nodeAt (hr : ∀ r ∈ rs, r.Shaped) (h : rs.foldlM apply start = .ok s)
    (ps : List String) : (s.root.nodeAt ps).keys = localKeys rs ps := by
  unfold Node.keys localKeys
  rw [(nodeAt_foldlM hr h ps).1]

theorem path_nodeAt (hr : ∀ r ∈ rs, r.Shaped) (h : rs.foldlM apply start = .ok s)
    (hps : ∀ x ∈ ps, IsName x) : (s.root.nodeAt ps).path = ".".intercalate ps := by
  have hrooted := (sound_foldlM hr sound_start h).rooted
  have hpath := hrooted.sound.path_nodeAt (List.forall_mem_nil _) hps hrooted.path
  rwa [List.nil_append] at hpath

/-- The section that is open was opened by a heading, if it is not the root. -/
theorem names_current (hr : ∀ r ∈ rs, r.Shaped) (h : rs.foldlM apply start = .ok s) :
    ∀ x ∈ s.current, IsName x := by
  intro x hx
  rw [(marks_foldlM h).1] at hx
  cases hlast : (headings rs).getLast? with
  | none => rw [hlast] at hx; exact absurd hx (by simp [start])
  | some names =>
      rw [hlast] at hx
      obtain ⟨q, hq, hnames⟩ := List.mem_filterMap.mp (List.mem_of_getLast? hlast)
      cases q with
      | heading names' =>
          injection hnames with hnames
          obtain ⟨-, hall⟩ : Line.Shaped (.heading names') := hr _ hq
          exact hall x (hnames ▸ hx)
      | _ => exact absurd hnames (by simp [Line.heading?])

theorem heading_clash {breach : Breach} (hr : ∀ r ∈ rs, r.Shaped)
    (h : rs.foldlM apply start = .ok s) (hnames : Line.Shaped (.heading names))
    (hs : s.heading names = .error breach) :
    ∃ ps x, breach = .duplicate (".".intercalate ps) x
      ∧ OnlyClash (rs ++ [.heading names]) ps x := by
  have hcons := consistent_of_foldlM hr h
  obtain ⟨-, hdec, -⟩ := marks_foldlM h
  have hdec : s.declared = headings rs := hdec
  obtain ⟨hne, hall⟩ := hnames
  unfold heading at hs
  rw [hdec] at hs
  by_cases hdeclared : names ∈ headings rs
  · rw [if_pos (List.contains_iff_mem.mpr hdeclared)] at hs
    injection hs with hs
    obtain ⟨ps, x, rfl⟩ := (List.eq_nil_or_concat' names).resolve_left hne
    rw [List.dropLast_concat, List.getLast?_concat] at hs
    exact ⟨ps, x, hs.symm, onlyClash_of_declared hcons hdeclared⟩
  · rw [if_neg (by simpa using hdeclared)] at hs
    cases hopen : s.root.openAt names with
    | ok t => rw [hopen] at hs; exact absurd hs (by simp)
    | error e =>
        obtain ⟨scope, x⟩ := e
        rw [hopen] at hs
        injection hs with hs
        have hsound := (sound_foldlM hr sound_start h).rooted.sound
        obtain ⟨ps, hps, hx, hscope⟩ := Node.openAt_eq_error hsound hopen
        have hway : ∀ y ∈ ps, IsName y := fun y hy =>
          hall y (hps.subset (List.mem_append_left _ hy))
        rw [path_nodeAt hr h hway] at hscope
        rw [keys_nodeAt hr h] at hx
        exact ⟨ps, x, by rw [← hs, hscope], onlyClash_of_barred hcons hdeclared hps hx⟩

theorem entry_clash {breach : Breach} (hr : ∀ r ∈ rs, r.Shaped)
    (h : rs.foldlM apply start = .ok s) (hs : s.entry key value = .error breach) :
    ∃ ps x, breach = .duplicate (".".intercalate ps) x
      ∧ OnlyClash (rs ++ [.entry key value]) ps x := by
  unfold entry at hs
  dsimp only at hs
  by_cases htaken : (s.root.nodeAt s.current).hasName key
  · rw [if_pos htaken, path_nodeAt hr h (names_current hr h)] at hs
    injection hs with hs
    have hsound := (sound_foldlM hr sound_start h).rooted.sound
    have hmem := (Node.hasName_iff (hsound.nodeAt s.current).indexed).mp htaken
    rw [Node.names, keys_nodeAt hr h, (nodeAt_foldlM hr h s.current).2, List.mem_append,
      mem_localSections] at hmem
    have hcur := (marks_foldlM h).1
    exact ⟨s.current, key, hs.symm,
      onlyClash_of_taken (consistent_of_foldlM hr h) hcur.symm hmem⟩
  · rw [if_neg htaken] at hs
    exact absurd hs (by simp)

/-- **What is refused is the one clash**: the error names its section and its name. -/
theorem apply_clash {breach : Breach} (hr : ∀ q ∈ rs ++ [r], q.Shaped)
    (h : rs.foldlM apply start = .ok s) (hs : s.apply r = .error breach) :
    ∃ ps x, breach = .duplicate (".".intercalate ps) x ∧ OnlyClash (rs ++ [r]) ps x := by
  have hrs : ∀ q ∈ rs, q.Shaped := fun q hq => hr q (List.mem_append_left _ hq)
  cases r with
  | heading names => exact heading_clash hrs h (hr _ (by simp)) hs
  | entry key value => exact entry_clash hrs h hs
  | blank => exact absurd hs (by simp [apply])
  | inclusion name => exact absurd hs (by simp [apply])

/-- Where reading stops. -/
theorem run_eq_error {source : String} {number : Nat} {lines : List (List Char)} {e : ConfigError}
    (h : run source number s lines = .error e) :
    ∃ before line m breach, before ++ [line] <+: lines
      ∧ run source number s before = .ok m ∧ m.step line = .error breach
      ∧ e = breach.toError source (number + before.length) := by
  induction lines generalizing number s with
  | nil => exact absurd h (by simp [run])
  | cons line rest ih =>
      rw [run] at h
      cases hstep : s.step line with
      | error breach =>
          rw [hstep] at h
          injection h with h
          exact ⟨[], line, s, breach, by simp, rfl, hstep, h.symm⟩
      | ok m =>
          rw [hstep] at h
          obtain ⟨before, line', m', breach, hpre, hm', hbreach, rfl⟩ := ih h
          refine ⟨line :: before, line', m', breach, by simpa using hpre, ?_, hbreach, ?_⟩
          · rw [run, hstep]
            exact hm'
          · rw [List.length_cons, Nat.add_assoc, Nat.add_comm 1]

end Scan

/-! ## Lawful lines -/

/-- Each line says something, and no name gets two meanings by it. -/
def Lawful (lines : List (List Char)) : Prop :=
  ∃ rs, List.Forall₂ Line.Says lines rs ∧ Consistent rs

/-- The line is no directive. -/
def Undirected (line : List Char) : Prop :=
  (Text.trim (Line.withoutComment line)).head? ≠ some '@'

instance (line : List Char) : Decidable (Undirected line) := inferInstanceAs (Decidable (_ ≠ _))

variable {lines before : List (List Char)} {line : List Char}

/-- The rules are kept up to every line, if they are at the end. -/
theorem Lawful.upTo (h : Lawful lines) (hpre : before <+: lines) : Lawful before := by
  obtain ⟨after, rfl⟩ := hpre
  obtain ⟨rs, hrs, hcons⟩ := h
  have hbefore := (List.forall₂_take_append rs before after hrs.flip).flip
  rw [← List.take_append_drop before.length rs] at hcons
  exact ⟨_, hbefore, hcons.of_append⟩

/-- Lines without directives are read as what they say. -/
theorem mapM_read_iff (h : ∀ line ∈ lines, Undirected line) :
    lines.mapM Line.read = .ok rs ↔ List.Forall₂ Line.Says lines rs := by
  rw [Scan.mapM_eq_ok]
  induction lines generalizing rs with
  | nil => simp
  | cons line rest ih =>
      obtain ⟨hline, hrest⟩ := List.forall_mem_cons.mp h
      rw [List.forall₂_cons_left_iff, List.forall₂_cons_left_iff]
      simp only [read_iff hline, ih hrest]

/-- What a line breaks after lines that could be read: its own form, or the one meaning of a name. -/
inductive Breaks (before : List (List Char)) (line : List Char) : Breach → Prop where
  | form (fault : LineFault) : (¬ ∃ r, Line.Says line r) → Breaks before line (.malformed fault)
  | meaning {rs : List Line} {ps : List String} {x : String} :
      List.Forall₂ Line.Says (before ++ [line]) rs → OnlyClash rs ps x →
      Breaks before line (.duplicate (".".intercalate ps) x)

theorem Breaks.not_lawful {breach : Breach} (hdir : ∀ q ∈ before ++ [line], Undirected q)
    (h : Breaks before line breach) : ¬ Lawful (before ++ [line]) := by
  rintro ⟨rs, hrs, hcons⟩
  cases h with
  | form fault hno =>
      have hlast := (List.forall₂_drop_append rs before [line] hrs.flip).flip
      obtain ⟨r, -, hr, -⟩ := List.forall₂_cons_left_iff.mp hlast
      exact hno ⟨r, hr⟩
  | @meaning rs' ps x hrs' honly =>
      -- lines say one thing only
      have hsame := ((mapM_read_iff hdir).mpr hrs).symm.trans ((mapM_read_iff hdir).mpr hrs')
      injection hsame with hsame
      subst hsame
      exact hcons.not_clash ps x ((honly ps x).mpr ⟨rfl, rfl⟩)

theorem breaks_of_step {source : String} {number : Nat} {m : Scan} {breach : Breach}
    (hfeed : ∀ q ∈ before ++ [line], '\n' ∉ q) (hdir : ∀ q ∈ before ++ [line], Undirected q)
    (hm : Scan.run source number .start before = .ok m) (hstep : m.step line = .error breach) :
    Breaks before line breach := by
  obtain ⟨rs, hread, hfold⟩ := Scan.run_eq_ok.mp hm
  have hline : Undirected line := hdir line (by simp)
  unfold Scan.step at hstep
  cases hr : Line.read line with
  | error fault =>
      rw [hr] at hstep
      injection hstep with hstep
      refine hstep ▸ .form fault ?_
      rintro ⟨r, hsays⟩
      rw [(read_iff hline).mpr hsays] at hr
      exact absurd hr (by simp)
  | ok r =>
      rw [hr] at hstep
      have hall : (before ++ [line]).mapM Line.read = .ok (rs ++ [r]) :=
        Scan.mapM_eq_ok.mpr (List.rel_append (Scan.mapM_eq_ok.mp hread) (.cons hr .nil))
      obtain ⟨ps, x, rfl, honly⟩ :=
        Scan.apply_clash (Scan.shaped_of_mapM hfeed hall) hfold hstep
      exact .meaning ((mapM_read_iff hdir).mp hall) honly

/-- Lines can be read if they are lawful, and otherwise up to the first that breaks a rule. -/
theorem run_lawful (source : String) (number : Nat) (hfeed : ∀ q ∈ lines, '\n' ∉ q)
    (hdir : ∀ q ∈ lines, Undirected q) :
    ((∃ s, Scan.run source number .start lines = .ok s) ↔ Lawful lines)
      ∧ ∀ e, Scan.run source number .start lines = .error e → ∃ before line breach,
        before ++ [line] <+: lines
          ∧ (∀ part, part <+: lines → (Lawful part ↔ part <+: before))
          ∧ e = breach.toError source (number + before.length) ∧ Breaks before line breach := by
  have hlawful {part : List (List Char)} {s : Scan} (hpart : part <+: lines)
      (hs : Scan.run source number .start part = .ok s) : Lawful part := by
    obtain ⟨rs, hread, hfold⟩ := Scan.run_eq_ok.mp hs
    have hshaped := Scan.shaped_of_mapM (fun q hq => hfeed q (hpart.subset hq)) hread
    exact ⟨rs, (mapM_read_iff fun q hq => hdir q (hpart.subset hq)).mp hread,
      Scan.consistent_of_foldlM hshaped hfold⟩
  have hstop {e : ConfigError} (he : Scan.run source number .start lines = .error e) :
      ∃ before line breach, before ++ [line] <+: lines ∧ Lawful before
        ∧ ¬ Lawful (before ++ [line])
        ∧ e = breach.toError source (number + before.length) ∧ Breaks before line breach := by
    obtain ⟨before, line, m, breach, hpre, hm, hstep, rfl⟩ := Scan.run_eq_error he
    have hdir' : ∀ q ∈ before ++ [line], Undirected q := fun q hq => hdir q (hpre.subset hq)
    have hbreaks := breaks_of_step (fun q hq => hfeed q (hpre.subset hq)) hdir' hm hstep
    exact ⟨before, line, breach, hpre, hlawful ((List.prefix_append before [line]).trans hpre) hm,
      hbreaks.not_lawful hdir', rfl, hbreaks⟩
  refine ⟨⟨fun ⟨s, hs⟩ => hlawful (List.prefix_refl _) hs, fun hall => ?_⟩, fun e he => ?_⟩
  · cases hrun : Scan.run source number .start lines with
    | ok s => exact ⟨s, rfl⟩
    | error e =>
        obtain ⟨before, line, -, hpre, -, hnot, -⟩ := hstop hrun
        exact absurd (hall.upTo hpre) hnot
  · obtain ⟨before, line, breach, hpre, hbefore, hnot, herror, hbreaks⟩ := hstop he
    refine ⟨before, line, breach, hpre, fun part hpart => ⟨fun hl => ?_, hbefore.upTo⟩,
      herror, hbreaks⟩
    -- a part that is longer has the line in it that breaks a rule
    rcases List.prefix_or_prefix_of_prefix hpart hpre with h | h
    · exact (List.prefix_concat_iff.mp h).resolve_left fun he => hnot (he ▸ hl)
    · exact absurd (hl.upTo h) hnot

theorem Phrase.inclusion? {s : List Char} (h : Phrase s r) : r.inclusion? = none := by
  cases h <;> rfl

/-- Where nothing is included, a text is read as it stands. -/
theorem Library.parseText_of_undirected (l : Library) {text : String}
    (hdir : ∀ line ∈ textLines text.toList, Undirected line) :
    l.parseText text = Scan.root <$> scan "<string>" text := by
  show l.expand (l.sources.length + l.files.entries.length + 1) [] _ = _
  rw [expand_eq]
  cases hscan : scan "<string>" text with
  | error e => rfl
  | ok own =>
      obtain ⟨rs, hrs, hs⟩ := scan_eq_ok.mp hscan
      have hnone : own.inclusions = [] := by
        rw [(Scan.foldlM_extends (records_shaped hrs) Scan.sound_start hs).inclusions]
        refine List.filterMap_eq_nil_iff.mpr fun p hp => ?_
        have hmem : p.2 ∈ rs := by
          rw [← map_snd_placed [] rs]
          exact List.mem_map_of_mem hp
        obtain ⟨line, hline, hread⟩ := (Scan.mem_of_mapM hrs).mp hmem
        have hphrase : Line.Says line p.2 := (read_iff (hdir line hline)).mp hread
        rw [hphrase.inclusion?, Option.map_none]
      show l.followAll _ [] none own.root own.inclusions = _
      rw [hnone]
      rfl

/-- **Which texts can be read**, of those without directives: all whose lines each say something
and give no name two meanings, in whatever order. Of any other the error tells the first line that
breaks a rule, and which: its form, or the one name in the one section that it gives a second
meaning. -/
theorem Library.parseText_lawful (l : Library) (text : String)
    (hdir : ∀ line ∈ textLines text.toList, Undirected line) :
    ((∃ root, l.parseText text = .ok root) ↔ Lawful (textLines text.toList))
      ∧ ∀ e, l.parseText text = .error e → ∃ before line breach,
        before ++ [line] <+: textLines text.toList
          ∧ (∀ part, part <+: textLines text.toList → (Lawful part ↔ part <+: before))
          ∧ e = breach.toError "<string>" (before.length + 1) ∧ Breaks before line breach := by
  have hrun := run_lawful "<string>" 1 (fun _ => not_mem_of_mem_textLines) hdir
  rw [l.parseText_of_undirected hdir]
  show ((∃ root, Scan.root <$> Scan.run "<string>" 1 .start _ = .ok root) ↔ _)
    ∧ ∀ e, Scan.root <$> Scan.run "<string>" 1 .start _ = .error e → _
  refine ⟨?_, fun e he => ?_⟩
  · rw [← hrun.1]
    cases Scan.run "<string>" 1 .start (textLines text.toList) <;> simp
  · cases hs : Scan.run "<string>" 1 .start (textLines text.toList) with
    | ok s => rw [hs] at he; exact absurd he (by simp)
    | error e' =>
        rw [hs] at he
        injection he with he
        obtain ⟨before, line, breach, hpre, hfirst, herror, hbreaks⟩ := hrun.2 e' hs
        exact ⟨before, line, breach, hpre, hfirst, by rw [← he, herror, Nat.add_comm], hbreaks⟩

/-- A key under the name of a section that only leads to another, with a worse line after it. -/
theorem Library.parseText_lawful_late :
    let text := "[s.t.u]\nk = 1 # one\n\n[s]\nt = 2\n[v"
    (∀ line ∈ textLines text.toList, Undirected line)
      ∧ empty.parseText text = .error (.duplicate "<string>" 5 "s" "t")
      ∧ ¬ Lawful (textLines text.toList)
      ∧ ∃ before line breach, before ++ [line] <+: textLines text.toList
        ∧ (∀ part, part <+: textLines text.toList → (Lawful part ↔ part <+: before))
        ∧ .duplicate "<string>" 5 "s" "t" = breach.toError "<string>" (before.length + 1)
        ∧ Breaks before line breach := by
  intro text
  have hdir : ∀ line ∈ textLines text.toList, Undirected line := by decide +kernel
  have herror : empty.parseText text = .error (.duplicate "<string>" 5 "s" "t") := by
    decide +kernel
  obtain ⟨hiff, hstop⟩ := parseText_lawful empty text hdir
  refine ⟨hdir, herror, fun hlawful => ?_, hstop _ herror⟩
  obtain ⟨root, hroot⟩ := hiff.mpr hlawful
  rw [herror] at hroot
  exact absurd hroot (by simp)

end PacedNet.Config
