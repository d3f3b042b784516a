import Mathlib.Data.List.Chain
import Mathlib.Data.List.Perm.Subperm
import Mathlib.Logic.Relation
import PacedNet.Proofs.Config.Declaring
import PacedNet.Proofs.Config.Including
import PacedNet.Proofs.Config.Paths

/-!
# Inclusions that go round

Following inclusions comes to an end because the keys on a chain are different and there are only
so many of them. `Reads`, `Follows` and `Leads` say how reading goes on without any bound on its
depth: a source is scanned and its inclusions are followed, one after the other; an inclusion leads
to a source, which is read below a chain that is longer by its key. Reading has one such course, and
it ends as the bounded reading does (`reads_iff`).

A chain is a path through the sources. If all of them are in order, the only way to fail is to come
back to a key that stands on the chain, so that a source can be read exactly when no cycle is within
its reach (`parseSource_circular`).
-/

namespace PacedNet.Config.Library

/-! ## Reading without a bound -/

mutual

/-- How reading a source below a chain of keys ends. -/
inductive Reads (l : Library) : List String → Located → Except ConfigError Node → Prop where
  | broken {chain : List String} {source : Located} {e : ConfigError} :
      scan source.name source.text = .error e → Reads l chain source (.error e)
  | scanned {chain : List String} {source : Located} {own : Scan} {r : Except ConfigError Node} :
      scan source.name source.text = .ok own →
      Follows l chain source.directory own.root own.inclusions r → Reads l chain source r

/-- How following inclusions ends, each merged into the tree before the next is followed. -/
inductive Follows (l : Library) :
    List String → Option (List UInt8) → Node → List Inclusion → Except ConfigError Node → Prop where
  | done {chain : List String} {directory : Option (List UInt8)} {root : Node} :
      Follows l chain directory root [] (.ok root)
  | stopped {chain : List String} {directory : Option (List UInt8)} {root : Node} {i : Inclusion}
      {rest : List Inclusion} {e : ConfigError} :
      Leads l chain directory i.name (.error e) →
      Follows l chain directory root (i :: rest) (.error e)
  | merged {chain : List String} {directory : Option (List UInt8)} {root tree : Node} {i : Inclusion}
      {rest : List Inclusion} {r : Except ConfigError Node} :
      Leads l chain directory i.name (.ok tree) →
      Follows l chain directory (root.modifyAt (·.fill tree) i.scope) rest r →
      Follows l chain directory root (i :: rest) r

/-- How following one inclusion ends. -/
inductive Leads (l : Library) :
    List String → Option (List UInt8) → String → Except ConfigError Node → Prop where
  | unfound {chain : List String} {directory : Option (List UInt8)} {name : String} {e : ConfigError} :
      l.locate name directory = .error e → Leads l chain directory name (.error e)
  | again {chain : List String} {directory : Option (List UInt8)} {name : String} {found : Located} :
      l.locate name directory = .ok found → found.key ∈ chain →
      Leads l chain directory name
        (.error (.inclusion found.name (.cycle (chain ++ [found.key]))))
  | read {chain : List String} {directory : Option (List UInt8)} {name : String} {found : Located}
      {r : Except ConfigError Node} :
      l.locate name directory = .ok found → found.key ∉ chain →
      Reads l (chain ++ [found.key]) found r → Leads l chain directory name r

end

variable {l : Library} {n : Nat} {chain : List String} {directory : Option (List UInt8)}
  {source found : Located} {a b name last text : String} {r : Except ConfigError Node}

/-! ## There are only so many keys -/

/-- All keys that sources may have. -/
def keys (l : Library) : List String :=
  l.sources.map Prod.fst ++ l.files.entries.map fun e => FileTree.shownName e.1

theorem mem_fst_of_lookup {α : Type} [BEq α] [LawfulBEq α] {β : Type} {pairs : List (α × β)} {a : α}
    {b : β} (h : pairs.lookup a = some b) : a ∈ pairs.map Prod.fst := by
  obtain ⟨before, after, rfl, -⟩ := List.lookup_eq_some_iff.mp h
  simp

theorem locate_source (directory : Option (List UInt8)) (h : l.sources.lookup name = some text) :
    l.locate name directory = .ok ⟨name, name, text, directory⟩ := by
  unfold locate
  rw [h]

/-- A file that can be read has its place's name for a key. -/
theorem fileKey_eq {file : List UInt8} {place : List (List UInt8)}
    (h : l.files.resolve file = .ok place) : l.fileKey file = FileTree.shownName place := by
  unfold fileKey FileTree.shownName
  rw [FileTree.canonical_eq h]

/-- It is one of the library's. -/
theorem fileKey_mem_keys {file : List UInt8} (h : l.files.readText file = .ok text) :
    l.fileKey file ∈ l.keys := by
  obtain ⟨place, entry, hplace, hentry⟩ := FileTree.readText_place h
  obtain ⟨e, he, rfl⟩ := List.mem_map.mp (mem_fst_of_lookup hentry)
  rw [fileKey_eq hplace]
  exact List.mem_append_right _ (List.mem_map_of_mem he)

/-- What is located has a key of the library's. -/
theorem mem_keys_of_locate (h : l.locate name directory = .ok found) : found.key ∈ l.keys := by
  unfold locate at h
  split at h
  · rename_i text htext
    injection h with h
    rw [← h]
    exact List.mem_append_left _ (mem_fst_of_lookup htext)
  · split at h
    · exact absurd h (by simp)
    · rename_i file hfile
      cases hread : l.files.readText file with
      | error fault => rw [hread] at h; exact absurd h (by simp)
      | ok text =>
          rw [hread] at h
          injection h with h
          exact h ▸ fileKey_mem_keys hread

theorem length_keys (l : Library) : l.keys.length + 1 = l.depth := by
  simp [keys, depth]

/-- A chain of different keys, with a depth left that suffices for the others. -/
structure Spare (l : Library) (n : Nat) (chain : List String) : Prop where
  nodup : chain.Nodup
  keys : ∀ key ∈ chain, key ∈ l.keys
  depth : l.keys.length < n + chain.length

theorem spare_nil (l : Library) : l.Spare l.depth [] :=
  ⟨List.nodup_nil, by simp, by rw [← l.length_keys]; simp⟩

/-- Where the depth is spent, so are the keys. -/
theorem Spare.pos (h : l.Spare n chain) : 0 < n := by
  have hle : chain.length ≤ l.keys.length := (List.subperm_of_subset h.nodup h.keys).length_le
  have := h.depth
  omega

theorem Spare.next (h : l.Spare (n + 1) chain) (hfound : l.locate name directory = .ok found)
    (hnew : found.key ∉ chain) : l.Spare n (chain ++ [found.key]) := by
  refine ⟨?_, fun key hkey => ?_, ?_⟩
  · exact (List.perm_append_singleton found.key chain).nodup_iff.mpr
      (List.nodup_cons.mpr ⟨hnew, h.nodup⟩)
  · rcases List.mem_append.mp hkey with hkey | hkey
    · exact h.keys key hkey
    · exact List.mem_singleton.mp hkey ▸ mem_keys_of_locate hfound
  · have := h.depth
    rw [List.length_append, List.length_singleton]
    omega

/-! ## The bounded reading has the same end -/

theorem leads_iff (h : ∀ found r, l.locate name directory = .ok found → found.key ∉ chain →
      (Reads l (chain ++ [found.key]) found r ↔ r = l.expand n (chain ++ [found.key]) found)) :
    Leads l chain directory name r ↔ r = l.follow n chain directory name := by
  unfold follow
  cases hfound : l.locate name directory with
  | error e =>
      show _ ↔ r = .error e
      constructor
      · rintro (hnone | ⟨hsome, -⟩ | ⟨hsome, -, -⟩)
        · rw [Except.error.inj (hnone.symm.trans hfound)]
        all_goals rw [hfound] at hsome; exact absurd hsome (by simp)
      · rintro rfl
        exact .unfound hfound
  | ok found =>
      show _ ↔ r = if chain.contains found.key then _ else _
      by_cases hmem : found.key ∈ chain
      · rw [if_pos (List.contains_iff_mem.mpr hmem)]
        constructor
        · rintro (hnone | ⟨hsome, -⟩ | ⟨hsome, hnew, -⟩)
          · rw [hfound] at hnone; exact absurd hnone (by simp)
          · rw [Except.ok.inj (hsome.symm.trans hfound)]
          · exact absurd hmem (Except.ok.inj (hsome.symm.trans hfound) ▸ hnew)
        · rintro rfl
          exact .again hfound hmem
      · rw [if_neg (by simpa using hmem), ← h found r hfound hmem]
        constructor
        · rintro (hnone | ⟨hsome, hmem'⟩ | ⟨hsome, -, hreads⟩)
          · rw [hfound] at hnone; exact absurd hnone (by simp)
          · exact absurd (Except.ok.inj (hsome.symm.trans hfound) ▸ hmem') hmem
          · exact Except.ok.inj (hsome.symm.trans hfound) ▸ hreads
        · exact .read hfound hmem

theorem follows_iff {is : List Inclusion} {root : Node}
    (h : ∀ name r, Leads l chain directory name r ↔ r = l.follow n chain directory name) :
    Follows l chain directory root is r ↔ r = l.followAll n chain directory root is := by
  induction is generalizing root with
  | nil =>
      constructor
      · rintro ⟨⟩
        rfl
      · rintro rfl
        exact .done
  | cons i rest ih =>
      rw [followAll_cons]
      cases hfollow : l.follow n chain directory i.name with
      | error e =>
          show _ ↔ r = .error e
          constructor
          · rintro (_ | hstop | ⟨hleads, -⟩)
            · exact ((h _ _).mp hstop).trans hfollow
            · exact absurd (((h _ _).mp hleads).trans hfollow) (by simp)
          · rintro rfl
            exact .stopped ((h _ _).mpr hfollow.symm)
      | ok tree =>
          show _ ↔ r = l.followAll n chain directory (root.modifyAt (·.fill tree) i.scope) rest
          rw [← ih]
          constructor
          · rintro (_ | hstop | ⟨hleads, hrest⟩)
            · exact absurd (((h _ _).mp hstop).trans hfollow) (by simp)
            · rwa [Except.ok.inj (((h _ _).mp hleads).trans hfollow)] at hrest
          · exact .merged ((h _ _).mpr hfollow.symm)

/-- **A depth that suffices is as good as none.** -/
theorem reads_iff (h : l.Spare n chain) : Reads l chain source r ↔ r = l.expand n chain source := by
  -- by the depth, of which there is always one more while there are keys to spare
  induction n generalizing chain source r with
  | zero => exact absurd h.pos (Nat.lt_irrefl 0)
  | succ n ih =>
      have hleads (name : String) (r : Except ConfigError Node) :
          Leads l chain source.directory name r
            ↔ r = l.follow n chain source.directory name :=
        leads_iff fun found r hfound hnew => ih (h.next hfound hnew)
      rw [expand_eq]
      cases hscan : scan source.name source.text with
      | error e =>
          show _ ↔ r = .error e
          constructor
          · rintro (hbroken | ⟨hown, -⟩)
            · rw [Except.error.inj (hbroken.symm.trans hscan)]
            · exact absurd (hown.symm.trans hscan) (by simp)
          · rintro rfl
            exact .broken hscan
      | ok own =>
          show _ ↔ r = l.followAll n chain source.directory own.root own.inclusions
          rw [← follows_iff hleads]
          constructor
          · rintro (hbroken | ⟨hown, hfollows⟩)
            · exact absurd (hbroken.symm.trans hscan) (by simp)
            · rwa [Except.ok.inj (hown.symm.trans hscan)] at hfollows
          · exact .scanned hscan

theorem spare_of_mem_keys {key : String} (h : key ∈ l.keys) : l.Spare l.depth [key] :=
  ⟨List.nodup_singleton _, by simpa using h, by
    rw [← l.length_keys, List.length_singleton]; omega⟩

theorem spare_singleton (h : l.locate name none = .ok found) : l.Spare l.depth [found.key] :=
  spare_of_mem_keys (mem_keys_of_locate h)

theorem leads_parseSource : Leads l [] none name r ↔ r = l.parseSource name := by
  have hfollow : l.parseSource name = l.follow l.depth [] none name := by
    unfold parseSource follow
    cases l.locate name none <;> rfl
  rw [hfollow]
  exact leads_iff fun found r hfound _ => reads_iff (spare_singleton hfound)

/-! ## Paths through the sources -/

def Registered (l : Library) (name : String) : Prop := ∃ text, l.sources.lookup name = some text

/-- A line of one registered source includes the other. -/
def Includes (l : Library) (a b : String) : Prop :=
  ∃ text, l.sources.lookup a = some text
    ∧ ∃ line ∈ textLines text.toList, Line.read line = .ok (.inclusion b)

/-- Every source is in order by itself, and includes registered sources only. -/
structure Complete (l : Library) : Prop where
  scanned : ∀ name text, l.sources.lookup name = some text → ∃ own, scan name text = .ok own
  registered : ∀ a b, l.Includes a b → l.Registered b

/-- A cycle is within reach. -/
def Circular (l : Library) (name : String) : Prop :=
  ∃ x, Relation.ReflTransGen l.Includes name x ∧ Relation.TransGen l.Includes x x

/-- A cycle within reach is within reach of something that is included. -/
theorem Circular.next (h : l.Circular name) : ∃ b, l.Includes name b ∧ l.Circular b := by
  obtain ⟨x, hx, hround⟩ := h
  rcases hx.cases_head with rfl | ⟨b, hb, hx⟩
  · obtain ⟨b, hb, hback⟩ := Relation.TransGen.head'_iff.mp hround
    exact ⟨b, hb, name, hback, hround⟩
  · exact ⟨b, hb, x, hx, hround⟩

/-- A path that comes back to one of its sources shows a cycle. -/
theorem circular_of_path {path : List String} (hpath : (path ++ [last]).IsChain l.Includes)
    (hhead : path.head? = some name) (hlast : last ∈ path) : l.Circular name := by
  obtain ⟨before, after, rfl⟩ := List.append_of_mem hlast
  rw [List.append_assoc, List.cons_append, List.isChain_split] at hpath
  obtain ⟨hto, hround⟩ := hpath
  refine ⟨last, ?_, ?_⟩
  · cases before with
    | nil => simp only [List.nil_append, List.head?_cons, Option.some.injEq] at hhead; rw [hhead]
    | cons p before =>
        simp only [List.cons_append, List.head?_cons, Option.some.injEq] at hhead
        subst hhead
        exact List.relationReflTransGen_of_exists_isChain_cons _ hto (by simp)
  · cases after with
    | nil => exact .single (List.isChain_pair.mp hround)
    | cons p after =>
        obtain ⟨hp, hround⟩ := List.isChain_cons_cons.mp hround
        exact .head' hp (List.relationReflTransGen_of_exists_isChain_cons _ hround (by simp))

/-- The inclusions of a source are those that its lines make. -/
theorem scan_inclusions {source : String} {own : Scan} (hown : scan source text = .ok own) :
    (∃ line ∈ textLines text.toList, Line.read line = .ok (.inclusion b))
      ↔ ∃ i ∈ own.inclusions, i.name = b := by
  obtain ⟨rs, hrs, hs⟩ := scan_eq_ok.mp hown
  have hnames : own.inclusions.map Inclusion.name = rs.filterMap Line.inclusion? := by
    rw [(Scan.foldlM_extends (records_shaped hrs) Scan.sound_start hs).inclusions]
    conv_rhs => rw [← map_snd_placed [] rs]
    simp [Scan.start, List.filterMap_map, List.map_filterMap, Function.comp_def]
  rw [← Scan.mem_of_mapM hrs, ← List.mem_map, hnames, List.mem_filterMap]
  constructor
  · intro hb
    exact ⟨_, hb, rfl⟩
  · rintro ⟨r, hr, hb⟩
    cases r with
    | inclusion name => injection hb with hb; exact hb ▸ hr
    | _ => exact absurd hb (by simp [Line.inclusion?])

/-- A source includes what its lines include. -/
theorem includes_iff {own : Scan} (htext : l.sources.lookup a = some text)
    (hown : scan a text = .ok own) : l.Includes a b ↔ ∃ i ∈ own.inclusions, i.name = b := by
  rw [← scan_inclusions hown]
  constructor
  · rintro ⟨text', htext', hb⟩
    rwa [htext'.symm.trans htext |> Option.some.inj] at hb
  · exact fun hb => ⟨text, htext, hb⟩

/-- Whether a library is complete can be checked source by source. -/
theorem complete_of_all (h : l.sources.all fun p => (scan p.1 p.2).toOption.any fun own =>
    own.inclusions.all fun i => (l.sources.lookup i.name).isSome) : l.Complete := by
  have hscan (name text : String) (htext : l.sources.lookup name = some text) :
      ∃ own, scan name text = .ok own ∧ ∀ i ∈ own.inclusions, l.Registered i.name := by
    obtain ⟨before, after, hsources, -⟩ := List.lookup_eq_some_iff.mp htext
    have hp := List.all_eq_true.mp h (name, text) (by rw [hsources]; simp)
    obtain ⟨own, hown, hall⟩ := (Option.any_eq_true _ _).mp hp
    exact ⟨own, eq_ok_of_toOption hown, fun i hi =>
      Option.isSome_iff_exists.mp (List.all_eq_true.mp hall i hi)⟩
  refine ⟨fun name text htext => ?_, fun a b hab => ?_⟩
  · obtain ⟨own, hown, -⟩ := hscan name text htext
    exact ⟨own, hown⟩
  · obtain ⟨text, htext, -⟩ := id hab
    obtain ⟨own, hown, hall⟩ := hscan a text htext
    obtain ⟨i, hi, rfl⟩ := (includes_iff htext hown).mp hab
    exact hall i hi

/-- Reading came back to a source on the path that led to it. -/
def Returns (l : Library) (path : List String) (e : ConfigError) : Prop :=
  ∃ more last, e = .inclusion last (.cycle (path ++ more ++ [last])) ∧ last ∈ path ++ more
    ∧ (path ++ more ++ [last]).IsChain l.Includes

theorem Returns.of_longer {path : List String} {e : ConfigError} (h : l.Returns (path ++ [b]) e) :
    l.Returns path e := by
  obtain ⟨more, last, he, hlast, hchain⟩ := h
  exact ⟨b :: more, last, by simpa using he, by simpa using hlast, by simpa using hchain⟩

/-- Reading goes through, and then something holds, or it comes back to the path. -/
inductive Course (l : Library) (path : List String) (holds : Prop) :
    Except ConfigError Node → Prop where
  | through {tree : Node} : holds → Course l path holds (.ok tree)
  | back {e : ConfigError} : l.Returns path e → Course l path holds (.error e)

/-- An inclusion leads on to a longer path, unless it stands on the path already. -/
theorem follow_course (htext : l.sources.lookup b = some text)
    (hpath : (chain ++ [b]).IsChain l.Includes)
    (h : b ∉ chain → l.Course (chain ++ [b]) (¬ l.Circular b)
      (l.expand n (chain ++ [b]) ⟨b, b, text, directory⟩)) :
    l.Course chain (¬ l.Circular b) (l.follow n chain directory b) := by
  unfold follow
  rw [locate_source directory htext]
  show l.Course chain _ (if chain.contains b then _ else _)
  by_cases hmem : b ∈ chain
  · rw [if_pos (List.contains_iff_mem.mpr hmem)]
    exact .back ⟨[], b, by simp, by simpa using hmem, by simpa using hpath⟩
  · rw [if_neg (by simpa using hmem)]
    have hread := h hmem
    generalize l.expand n (chain ++ [b]) ⟨b, b, text, directory⟩ = r at hread
    cases hread with
    | through hround => exact .through hround
    | back hreturns => exact .back hreturns.of_longer

/-- Inclusions are followed one by one, until one of them comes back. -/
theorem followAll_course {is : List Inclusion} (root : Node)
    (h : ∀ i ∈ is, l.Course chain (¬ l.Circular i.name) (l.follow n chain directory i.name)) :
    l.Course chain (∀ i ∈ is, ¬ l.Circular i.name) (l.followAll n chain directory root is) := by
  induction is generalizing root with
  | nil => exact .through (by simp)
  | cons i rest ih =>
      obtain ⟨hfirst, hrest⟩ := List.forall_mem_cons.mp h
      rw [followAll_cons]
      generalize l.follow n chain directory i.name = r at hfirst
      cases hfirst with
      | back hreturns => exact .back hreturns
      | @through tree hround =>
          have hmore := ih (root.modifyAt (·.fill tree) i.scope) hrest
          show l.Course chain _
            (l.followAll n chain directory (root.modifyAt (·.fill tree) i.scope) rest)
          generalize l.followAll n chain directory (root.modifyAt (·.fill tree) i.scope) rest = r
            at hmore
          cases hmore with
          | through hnone => exact .through (List.forall_mem_cons.mpr ⟨hround, hnone⟩)
          | back hreturns => exact .back hreturns

/-- **What becomes of the last source on a path**: it is read, with no cycle within its reach, or
reading it comes back to the path. -/
theorem expand_course (directory : Option (List UInt8)) (hl : l.Complete) (h : l.Spare n chain)
    (hchain : chain.IsChain l.Includes) (hlast : chain.getLast? = some name)
    (htext : l.sources.lookup name = some text) :
    l.Course chain (¬ l.Circular name) (l.expand n chain ⟨name, name, text, directory⟩) := by
  induction n generalizing chain name text directory with
  | zero => exact absurd h.pos (Nat.lt_irrefl 0)
  | succ n ih =>
      obtain ⟨own, hown⟩ := hl.scanned name text htext
      have hincludes (b : String) := includes_iff (b := b) htext hown
      have hall : l.Course chain (∀ i ∈ own.inclusions, ¬ l.Circular i.name)
          (l.followAll n chain directory own.root own.inclusions) := by
        refine followAll_course own.root fun i hi => ?_
        have hi : l.Includes name i.name := (hincludes _).mpr ⟨i, hi, rfl⟩
        obtain ⟨itext, hitext⟩ := hl.registered name i.name hi
        have hpath : (chain ++ [i.name]).IsChain l.Includes :=
          hchain.append (List.isChain_singleton _) (by simpa [hlast] using hi)
        exact follow_course hitext hpath fun hnew =>
          ih directory (h.next (locate_source directory hitext) hnew) hpath (by simp) hitext
      rw [expand_eq, hown]
      show l.Course chain _ (l.followAll n chain directory own.root own.inclusions)
      generalize l.followAll n chain directory own.root own.inclusions = r at hall
      cases hall with
      | back hreturns => exact .back hreturns
      | through hnone =>
          -- a cycle within reach is within reach of an inclusion
          refine .through fun hround => ?_
          obtain ⟨b, hb, hround⟩ := hround.next
          obtain ⟨i, hi, rfl⟩ := (hincludes b).mp hb
          exact hnone i hi hround

/-- **Reading comes to an end, and fails where inclusions go round**: every text and every name has
one course without a bound on its depth, and it ends as the bounded reading does. If all sources are
in order and include registered ones only, a name can be read exactly when no cycle is within its
reach, and otherwise the error shows a path from the name that comes back to one of its sources. -/
theorem parseSource_circular (l : Library) :
    (∀ text r, Reads l [] ⟨"", "<string>", text, none⟩ r ↔ r = l.parseText text)
      ∧ (∀ name r, Leads l [] none name r ↔ r = l.parseSource name)
      ∧ (l.Complete → ∀ name, l.Registered name →
        ((∃ root, l.parseSource name = .ok root) ↔ ¬ l.Circular name)
          ∧ (l.Circular name → ∃ chain last,
            l.parseSource name = .error (.inclusion last (.cycle (chain ++ [last])))
              ∧ chain.head? = some name ∧ last ∈ chain
              ∧ (chain ++ [last]).IsChain l.Includes)) := by
  refine ⟨fun text r => reads_iff l.spare_nil, fun name r => leads_parseSource,
    fun hl name hname => ?_⟩
  obtain ⟨text, htext⟩ := hname
  have hfound := locate_source none htext
  have hparse : l.parseSource name = l.expand l.depth [name] ⟨name, name, text, none⟩ := by
    unfold parseSource
    rw [hfound]
    rfl
  rw [hparse]
  have hspare : l.Spare l.depth [name] := spare_singleton hfound
  have hlast : [name].getLast? = some name := rfl
  have hcourse := expand_course none hl hspare (List.isChain_singleton name) hlast htext
  generalize l.expand l.depth [name] ⟨name, name, text, none⟩ = r at hcourse
  cases hcourse with
  | @through root hcirc =>
      exact ⟨⟨fun _ => hcirc, fun _ => ⟨root, rfl⟩⟩, fun hround => absurd hround hcirc⟩
  | back hreturns =>
      obtain ⟨more, last, rfl, hlast, hchain⟩ := hreturns
      have hround : l.Circular name := circular_of_path hchain rfl hlast
      refine ⟨⟨?_, fun hcirc => absurd hround hcirc⟩, fun _ => ?_⟩
      · rintro ⟨root, hroot⟩
        exact absurd hroot (by simp)
      · exact ⟨[name] ++ more, last, rfl, rfl, hlast, hchain⟩

/-- Two ways to one source are no cycle; a cycle need not come back to where reading began. -/
theorem parseSource_circular_beyond :
    let l := ((((empty.register "top" "@include left\n@include right").register "left"
      "@include base").register "right" "[s]\n@include base").register "base" "k = 1").register
        "entry" "@include base\n[a]\n@include loop" |>.register "loop" "@include back"
          |>.register "back" "[b]\n@include loop"
    l.Complete ∧ l.Registered "top" ∧ ¬ l.Circular "top"
      ∧ l.Registered "entry" ∧ l.Circular "entry"
      ∧ (∃ root, l.parseSource "top" = .ok root)
      ∧ ∃ chain last, l.parseSource "entry" = .error (.inclusion last (.cycle (chain ++ [last])))
        ∧ chain.head? = some "entry" ∧ last ∈ chain ∧ (chain ++ [last]).IsChain l.Includes := by
  intro l
  have hl : l.Complete := complete_of_all (by decide +kernel)
  have hcircular := (parseSource_circular l).2.2 hl
  have htop : (l.parseSource "top").toOption.isSome := by decide +kernel
  have hentry : (l.parseSource "entry").toOption.isSome = false := by decide +kernel
  obtain ⟨root, hroot⟩ := Option.isSome_iff_exists.mp htop
  have hregistered (name : String) (h : (l.sources.lookup name).isSome) : l.Registered name :=
    Option.isSome_iff_exists.mp h
  have htop' := hregistered "top" (by decide)
  have hentry' := hregistered "entry" (by decide)
  have hround : l.Circular "entry" := by
    by_contra hround
    obtain ⟨root, hroot⟩ := (hcircular "entry" hentry').1.mpr hround
    rw [hroot] at hentry
    exact absurd hentry (by simp [Except.toOption])
  have hread : ∃ root, l.parseSource "top" = .ok root := ⟨root, eq_ok_of_toOption hroot⟩
  exact ⟨hl, htop', (hcircular "top" htop').1.mp hread, hentry', hround, hread,
    (hcircular "entry" hentry').2 hround⟩

end PacedNet.Config.Library
