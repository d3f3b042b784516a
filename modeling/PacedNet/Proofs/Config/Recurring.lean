import PacedNet.Proofs.Config.Circling
import PacedNet.Proofs.Config.Clashing

/-!
# Sources that recur

A chain of inclusions is kept as a list of keys, and a key that would stand on it twice is a cycle.
What is a cycle by its keys need not be one by its sources. A source is a text registered under a
name or the file at a place (`Origin`). The key of a text is its name, the key of a file the name of
its place as it is shown, and nothing else tells one source from another.

A file has one key, whatever the path that led to it. But a text may be registered under the shown
name of a place, and two places whose names are not both text may be shown alike (`Namesakes`).
Such sources pass for one: a file that includes a text of its name is reported to include itself
(`parse_namesake`). Every other cycle that is reported goes round through one source.

A `Way` is a chain of inclusions as it can be followed from a request, whether it circles or not. A
request fails because something is missing or malformed where its ways lead, or because one of them
comes back to a key (`parse_fails`), and so it is read exactly when nothing is out of order and all
its ways are straight (`parse_recurs`).
-/

namespace PacedNet.Config.Library

/-! ## Ways through the inclusions -/

/-- What a source is: a text registered under a name, or the file at a place. -/
inductive Origin where
  | registered (name : String)
  | file (place : List (List UInt8))
deriving DecidableEq

/-- What a source is called on a chain. -/
def Origin.key : Origin → String
  | registered name => name
  | file place => FileTree.shownName place

/-- A source and where it is from. -/
structure Visit where
  origin : Origin
  source : Located

/-- A path leads to a file that can be read. -/
inductive Opened (l : Library) (path : List UInt8) : Visit → Prop where
  | file {place : List (List UInt8)} {text : String} :
      l.files.resolve path = .ok place → l.files.readText path = .ok text →
      Opened l path
        ⟨.file place, ⟨l.fileKey path, Text.decodeLossy path, text, Path.parent? path⟩⟩

/-- A name leads to the text registered under it, or else to a file. -/
inductive Found (l : Library) (directory : Option (List UInt8)) (name : String) :
    Visit → Prop where
  | registered {text : String} :
      l.sources.lookup name = some text →
      Found l directory name ⟨.registered name, ⟨name, name, text, directory⟩⟩
  | file {path : List UInt8} {v : Visit} :
      l.sources.lookup name = none → l.findFile (Text.encode name) directory = some path →
      l.Opened path v → Found l directory name v

/-- A line of a source includes a name. -/
def Mentions (source : Located) (name : String) : Prop :=
  ∃ line ∈ textLines source.text.toList, Line.read line = .ok (.inclusion name)

/-- A line of a source leads to another source. -/
def Onward (l : Library) (source : Located) (v : Visit) : Prop :=
  ∃ name, Mentions source name ∧ l.Found source.directory name v

/-- What can be asked for. -/
inductive Request where
  | text (text : String)
  | source (name : String)
  | file (path : List UInt8)

def parse (l : Library) : Request → Except ConfigError Node
  | .text text => l.parseText text
  | .source name => l.parseSource name
  | .file path => l.parseFile path

/-- A text that is asked for by itself, and not by any name. -/
def unnamed (text : String) : Located := ⟨"", "<string>", text, none⟩

/-- The sources a request begins with: a text by itself is none, but includes some. -/
def First (l : Library) : Request → Visit → Prop
  | .text text, v => l.Onward (unnamed text) v
  | .source name, v => l.Found none name v
  | .file path, v => l.Opened path v

/-- A chain of inclusions that a request begins, and the source at its end. -/
inductive Way (l : Library) (request : Request) : List Visit → Visit → Prop where
  | first {v : Visit} : l.First request v → Way l request [] v
  | next {way : List Visit} {v w : Visit} :
      Way l request way v → l.Onward v.source w → Way l request (way ++ [v]) w

/-- A source that is read for a request. -/
inductive Reached (l : Library) : Request → Located → Prop where
  | text {text : String} : Reached l (.text text) (unnamed text)
  | way {request : Request} {way : List Visit} {last : Visit} :
      l.Way request way last → Reached l request last.source

/-- Something is not there, or a source is not in order. -/
inductive Disorder (l : Library) (request : Request) : ConfigError → Prop where
  | missing {name : String} {e : ConfigError} :
      request = .source name → l.locate name none = .error e → Disorder l request e
  | unreadable {path : List UInt8} {fault : FileFault} :
      request = .file path → l.files.readText path = .error fault →
      Disorder l request (.unreadable (Text.decodeLossy path) fault)
  | broken {source : Located} {e : ConfigError} :
      l.Reached request source → scan source.name source.text = .error e → Disorder l request e
  | unfound {source : Located} {name : String} {e : ConfigError} :
      l.Reached request source → Mentions source name →
      l.locate name source.directory = .error e → Disorder l request e

def origins (way : List Visit) : List Origin := way.map Visit.origin

/-- The chain that is kept of a way. -/
def chainOf (way : List Visit) : List String := (origins way).map Origin.key

/-- Sources that are two and go by one key: a text that is registered under the shown name of a
place and the file there, or the files at two places that are shown alike, which cannot be if both
their names are text. -/
inductive Namesakes : Origin → Origin → Prop where
  | text_file (place : List (List UInt8)) :
      Namesakes (.registered (FileTree.shownName place)) (.file place)
  | file_text (place : List (List UInt8)) :
      Namesakes (.file place) (.registered (FileTree.shownName place))
  | garbled {place place' : List (List UInt8)} :
      place ≠ place' → ¬ (FileTree.Legible place ∧ FileTree.Legible place') →
      FileTree.shownName place = FileTree.shownName place' → Namesakes (.file place) (.file place')

/-- No way meets a source twice, or a source and its namesake. -/
def Straight (l : Library) (request : Request) : Prop :=
  ∀ way last, l.Way request way last →
    (origins (way ++ [last])).Pairwise fun o o' => o ≠ o' ∧ ¬ Namesakes o o'

variable {l : Library} {request : Request} {n : Nat} {chain keys : List String}
  {directory : Option (List UInt8)} {path : List UInt8} {name text : String}
  {source found : Located} {v w last : Visit} {way : List Visit} {root tree : Node} {e : ConfigError}

theorem chainOf_append (way : List Visit) (v : Visit) :
    chainOf (way ++ [v]) = chainOf way ++ [v.origin.key] := by
  simp [chainOf, origins]

theorem chainOf_singleton (h : v.source.key = v.origin.key) : chainOf [v] = [v.source.key] := by
  rw [h]
  rfl

/-! ## What is found -/

theorem exists_opened (h : l.files.readText path = .ok text) :
    ∃ origin, l.Opened path
      ⟨origin, ⟨l.fileKey path, Text.decodeLossy path, text, Path.parent? path⟩⟩ := by
  obtain ⟨place, -, hplace, -⟩ := FileTree.readText_place h
  exact ⟨.file place, .file hplace h⟩

/-- What is located has one origin or the other. -/
theorem locate_iff : l.locate name directory = .ok found
    ↔ ∃ origin, l.Found directory name ⟨origin, found⟩ := by
  constructor
  · intro h
    unfold locate at h
    split at h
    · rename_i text htext
      injection h with h
      exact ⟨.registered name, h ▸ .registered htext⟩
    · rename_i hnone
      split at h
      · exact absurd h (by simp)
      · rename_i file hfile
        cases hread : l.files.readText file with
        | error fault => rw [hread] at h; exact absurd h (by simp)
        | ok text =>
            rw [hread] at h
            injection h with h
            obtain ⟨origin, hopened⟩ := exists_opened hread
            exact ⟨origin, .file hnone hfile (h ▸ hopened)⟩
  · rintro ⟨origin, htext | ⟨hnone, hfile, hplace, hread⟩⟩
    · exact locate_source directory htext
    · unfold locate
      simp only [hnone, hfile, hread]

/-- A name that leads nowhere is no cycle. -/
theorem locate_not_cycle {other : String} :
    l.locate name directory ≠ .error (.inclusion other (.cycle keys)) := by
  intro h
  unfold locate at h
  repeat' split at h
  all_goals exact absurd h (by simp)

/-- A source that is not in order is no cycle. -/
theorem scan_not_cycle {source : String} :
    scan source text ≠ .error (.inclusion name (.cycle keys)) := by
  intro h
  obtain ⟨_, _, _, breach, _, _, _, he⟩ := Scan.run_eq_error h
  cases breach with
  | malformed fault => exact absurd he (by simp [Breach.toError])
  | duplicate scope key => exact absurd he (by simp [Breach.toError])

/-- What holds of all that is found holds all along a way. -/
theorem Way.forall_mem {P : Visit → Prop}
    (hfound : ∀ directory name v, l.Found directory name v → P v)
    (hopened : ∀ path v, l.Opened path v → P v) (h : l.Way request way last) :
    ∀ v ∈ way ++ [last], P v := by
  have honward (source : Located) (v : Visit) (h : l.Onward source v) : P v := by
    obtain ⟨name, -, h⟩ := h
    exact hfound _ name v h
  induction h with
  | @first v hfirst =>
      intro u hu
      rw [List.mem_singleton.mp hu]
      cases request with
      | text text => exact honward _ v hfirst
      | source name => exact hfound none name v hfirst
      | file path => exact hopened path v hfirst
  | @next way v w _ hw ih =>
      intro u hu
      rcases List.mem_append.mp hu with hu | hu
      · exact ih u hu
      · rw [List.mem_singleton.mp hu]
        exact honward v.source w hw

/-- What is found goes by the key of its origin. -/
theorem Opened.key (h : l.Opened path v) : v.source.key = v.origin.key := by
  obtain ⟨hplace, -⟩ := h
  exact fileKey_eq hplace

theorem Found.key (h : l.Found directory name v) : v.source.key = v.origin.key := by
  cases h with
  | registered => rfl
  | file _ _ hopened => exact hopened.key

theorem Way.key (h : l.Way request way last) : last.source.key = last.origin.key :=
  h.forall_mem (P := fun v => v.source.key = v.origin.key) (fun _ _ _ => Found.key)
    (fun _ _ => Opened.key) last (by simp)

/-- The components of a file's place are pieces. -/
def Origin.Placed (o : Origin) : Prop :=
  ∀ place, o = .file place → ∀ piece ∈ place, FileTree.IsPiece piece

theorem Opened.placed (hhome : l.files.Homed) (h : l.Opened path v) : v.origin.Placed := by
  obtain ⟨hplace, -⟩ := h
  rintro place ⟨⟩
  exact FileTree.resolve_pieces hhome hplace

theorem Found.placed (hhome : l.files.Homed) (h : l.Found directory name v) : v.origin.Placed := by
  cases h with
  | registered => exact fun place hplace => absurd hplace (by simp)
  | file _ _ hopened => exact hopened.placed hhome

theorem Namesakes.key {o o' : Origin} (h : Namesakes o o') : o.key = o'.key := by
  cases h with
  | text_file place => rfl
  | file_text place => rfl
  | garbled _ _ hshown => exact hshown

/-- **Sources of one key are one source**, or namesakes. -/
theorem Origin.key_eq_iff {o o' : Origin} (h : o.Placed) (h' : o'.Placed) :
    o.key = o'.key ↔ o = o' ∨ Namesakes o o' := by
  constructor
  · intro hkey
    cases o with
    | registered name =>
        cases o' with
        | registered name' => exact Or.inl (congrArg Origin.registered hkey)
        | file place =>
            obtain rfl : name = FileTree.shownName place := hkey
            exact Or.inr (.text_file place)
    | file place =>
        cases o' with
        | registered name =>
            obtain rfl : FileTree.shownName place = name := hkey
            exact Or.inr (.file_text place)
        | file place' =>
            by_cases hplace : place = place'
            · exact Or.inl (congrArg Origin.file hplace)
            · refine Or.inr (.garbled hplace ?_ hkey)
              rintro ⟨htext, htext'⟩
              exact hplace (FileTree.shownName_inj (h place rfl) (h' place' rfl) htext htext' hkey)
  · rintro (rfl | hsame)
    · rfl
    · exact hsame.key

/-! ## Readings that fail -/

/-- A way comes to a key that stands on it, and this is what is reported. -/
def Circles (l : Library) (request : Request) (e : ConfigError) : Prop :=
  ∃ way last, l.Way request way last
    ∧ e = .inclusion last.source.name (.cycle (chainOf (way ++ [last])))
    ∧ last.origin.key ∈ chainOf way

/-- What is out of order is not reported as a cycle. -/
theorem Disorder.not_cycle (h : l.Disorder request e) : e ≠ .inclusion name (.cycle keys) := by
  rintro rfl
  cases h with
  | missing _ h => exact locate_not_cycle h
  | broken _ h => exact scan_not_cycle h
  | unfound _ _ h => exact locate_not_cycle h

theorem followAll_error {is : List Inclusion}
    (h : l.followAll n chain directory root is = .error e) :
    ∃ i ∈ is, l.follow n chain directory i.name = .error e := by
  induction is generalizing root with
  | nil => exact absurd h (by simp [followAll, pure, Except.pure])
  | cons i rest ih =>
      rw [followAll_cons] at h
      cases hfollow : l.follow n chain directory i.name with
      | error e' =>
          rw [hfollow] at h
          injection h with h
          exact ⟨i, List.mem_cons_self, h ▸ hfollow⟩
      | ok tree =>
          rw [hfollow] at h
          obtain ⟨j, hj, he⟩ := ih h
          exact ⟨j, List.mem_cons_of_mem i hj, he⟩

/-- Following an inclusion fails if its source is not found, or stands on the way, or if reading it
fails. -/
theorem follow_fails (hsource : l.Reached request source) (hname : Mentions source name)
    (hway : ∀ v, l.Onward source v → l.Way request way v)
    (hread : ∀ v, l.Found source.directory name v → v.source.key ∉ chainOf way →
      l.expand n (chainOf (way ++ [v])) v.source = .error e →
      l.Disorder request e ∨ l.Circles request e)
    (h : l.follow n (chainOf way) source.directory name = .error e) :
    l.Disorder request e ∨ l.Circles request e := by
  unfold follow at h
  cases hfound : l.locate name source.directory with
  | error e' =>
      rw [hfound] at h
      injection h with h
      exact Or.inl (h ▸ .unfound hsource hname hfound)
  | ok found =>
      obtain ⟨origin, hv⟩ := locate_iff.mp hfound
      have hkey : found.key = origin.key := hv.key
      rw [hfound] at h
      simp only [bind, Except.bind] at h
      split_ifs at h with hmem
      · -- the key stands on the way: what is reported is the way and the source
        injection h with h
        refine Or.inr ⟨way, ⟨origin, found⟩, hway _ ⟨name, hname, hv⟩, ?_, ?_⟩
        · rw [chainOf_append, ← hkey]
          exact h.symm
        · exact hkey ▸ List.contains_iff_mem.mp hmem
      · refine hread ⟨origin, found⟩ hv (by simpa using hmem) ?_
        rwa [chainOf_append, ← hkey]

/-- **How reading a source fails.** -/
theorem expand_fails (hspare : l.Spare n (chainOf way)) (hsource : l.Reached request source)
    (hway : ∀ v, l.Onward source v → l.Way request way v)
    (h : l.expand n (chainOf way) source = .error e) :
    l.Disorder request e ∨ l.Circles request e := by
  -- by the depth, which lasts as long as there are keys that are not on the way
  induction n generalizing way source with
  | zero => exact absurd hspare.pos (Nat.lt_irrefl 0)
  | succ n ih =>
      rw [expand_eq] at h
      cases hown : scan source.name source.text with
      | error e' =>
          rw [hown] at h
          injection h with h
          exact Or.inl (h ▸ .broken hsource hown)
      | ok own =>
          rw [hown] at h
          obtain ⟨i, hi, hfollow⟩ := followAll_error h
          have hname : Mentions source i.name := (scan_inclusions hown).mpr ⟨i, hi, rfl⟩
          refine follow_fails hsource hname hway (fun v hv hnew h => ?_) hfollow
          have hnext : l.Way request way v := hway v ⟨i.name, hname, hv⟩
          refine ih ?_ (.way hnext) (fun w hw => hnext.next hw) h
          rw [chainOf_append, ← hv.key]
          exact hspare.next (locate_iff.mpr ⟨v.origin, hv⟩) hnew

/-- A request for a source is read from there. -/
theorem parseSource_found (h : l.Found none name v) :
    l.parseSource name = l.expand l.depth (chainOf [v]) v.source := by
  unfold parseSource
  rw [locate_iff.mpr ⟨v.origin, h⟩, chainOf_singleton h.key]
  rfl

theorem parseFile_opened (h : l.Opened path v) :
    l.parseFile path = l.expand l.depth (chainOf [v]) v.source := by
  rw [chainOf_singleton h.key]
  obtain ⟨-, hread⟩ := h
  unfold parseFile
  rw [hread]

/-- **How a request fails**: something is out of order, or a way comes back to a key. -/
theorem parse_fails (h : l.parse request = .error e) :
    l.Disorder request e ∨ l.Circles request e := by
  have hbegin (v : Visit) (hfirst : l.First request v) (hspare : l.Spare l.depth (chainOf [v]))
      (h : l.expand l.depth (chainOf [v]) v.source = .error e) :
      l.Disorder request e ∨ l.Circles request e :=
    expand_fails hspare (.way (.first hfirst)) (fun w hw => .next (.first hfirst) hw) h
  cases request with
  | text text =>
      have hspare : l.Spare l.depth (chainOf []) := l.spare_nil
      exact expand_fails hspare .text (fun v hv => .first hv) h
  | source name =>
      rw [parse] at h
      cases hfound : l.locate name none with
      | error e' =>
          rw [parseSource, hfound] at h
          injection h with h
          exact Or.inl (h ▸ .missing rfl hfound)
      | ok found =>
          obtain ⟨origin, hv⟩ := locate_iff.mp hfound
          rw [parseSource_found hv] at h
          refine hbegin _ hv ?_ h
          exact chainOf_singleton hv.key ▸ spare_singleton hfound
  | file path =>
      rw [parse] at h
      cases hread : l.files.readText path with
      | error fault =>
          rw [parseFile, hread] at h
          injection h with h
          exact Or.inl (h ▸ .unreadable rfl hread)
      | ok text =>
          obtain ⟨origin, hv⟩ := exists_opened hread
          rw [parseFile_opened hv] at h
          refine hbegin _ hv ?_ h
          exact chainOf_singleton hv.key ▸ spare_of_mem_keys (fileKey_mem_keys hread)

/-! ## Readings that succeed -/

/-- What a source that can be read mentions is found, new on the way, and can be read there. -/
theorem expand_mentions (h : l.expand n chain source = .ok tree) (hname : Mentions source name) :
    ∃ found m tree', l.locate name source.directory = .ok found ∧ found.key ∉ chain
      ∧ l.expand m (chain ++ [found.key]) found = .ok tree' := by
  cases n with
  | zero => exact absurd h (by simp [expand])
  | succ n =>
      obtain ⟨own, trees, hown, htrees, -⟩ := expand_eq_ok.mp h
      obtain ⟨i, hi, rfl⟩ := (scan_inclusions hown).mp hname
      obtain ⟨k, rfl⟩ := List.get_of_mem hi
      have hfollow := htrees.get k.isLt (htrees.length_eq ▸ k.isLt)
      obtain ⟨found, hfound, hnew, hexpand⟩ := follow_eq_ok.mp hfollow
      exact ⟨found, n, _, hfound, hnew, hexpand⟩

theorem expand_onward (h : l.expand n (chainOf way) source = .ok tree) (hv : l.Onward source v) :
    v.source.key ∉ chainOf way
      ∧ ∃ m tree', l.expand m (chainOf way ++ [v.source.key]) v.source = .ok tree' := by
  obtain ⟨name, hname, hfound⟩ := hv
  obtain ⟨found, m, tree', hlocate, hnew, hexpand⟩ := expand_mentions h hname
  rw [locate_iff.mpr ⟨v.origin, hfound⟩] at hlocate
  injection hlocate with hlocate
  subst hlocate
  exact ⟨hnew, m, tree', hexpand⟩

/-- **Where a request can be read, so can the end of each of its ways**, and no key is there
twice. -/
theorem Way.read (hparse : l.parse request = .ok root) (h : l.Way request way last) :
    (chainOf (way ++ [last])).Nodup
      ∧ ∃ n tree, l.expand n (chainOf (way ++ [last])) last.source = .ok tree := by
  -- along the way: the source that was read last has read what it leads to, below a longer chain
  induction h with
  | @first v hfirst =>
      refine ⟨List.nodup_singleton _, ?_⟩
      cases request with
      | text text =>
          have hexpand : l.expand l.depth (chainOf []) (unnamed text) = .ok root := hparse
          obtain ⟨-, hread⟩ := expand_onward hexpand hfirst
          rw [List.nil_append, chainOf_singleton (Way.first hfirst).key]
          exact hread
      | source name => exact ⟨l.depth, root, parseSource_found hfirst ▸ hparse⟩
      | file path => exact ⟨l.depth, root, parseFile_opened hfirst ▸ hparse⟩
  | @next way v w hway hw ih =>
      obtain ⟨hnodup, n, tree, hexpand⟩ := ih
      obtain ⟨hnew, hread⟩ := expand_onward hexpand hw
      have hkey : w.source.key = w.origin.key := (hway.next hw).key
      rw [chainOf_append (way ++ [v]) w, ← hkey]
      refine ⟨?_, hread⟩
      exact (List.perm_append_singleton _ _).nodup_iff.mpr (List.nodup_cons.mpr ⟨hnew, hnodup⟩)

theorem Reached.read (hparse : l.parse request = .ok root) (h : l.Reached request source) :
    ∃ n chain tree, l.expand n chain source = .ok tree := by
  cases h with
  | text => exact ⟨l.depth, [], root, hparse⟩
  | way hway =>
      obtain ⟨-, n, tree, hexpand⟩ := hway.read hparse
      exact ⟨n, _, tree, hexpand⟩

/-- Nothing is out of order where a request can be read. -/
theorem Disorder.not_read (h : l.Disorder request e) : l.parse request ≠ .ok root := by
  intro hparse
  cases h with
  | missing hrequest hmissing =>
      rw [hrequest, parse, parseSource, hmissing] at hparse
      exact absurd hparse (by simp [bind, Except.bind])
  | unreadable hrequest hread =>
      rw [hrequest, parse, parseFile, hread] at hparse
      exact absurd hparse (by simp)
  | broken hsource hscan =>
      obtain ⟨n, chain, tree, hexpand⟩ := hsource.read hparse
      cases n with
      | zero => exact absurd hexpand (by simp [expand])
      | succ n =>
          obtain ⟨own, -, hown, -⟩ := expand_eq_ok.mp hexpand
          exact absurd (hown.symm.trans hscan) (by simp)
  | unfound hsource hname hnone =>
      obtain ⟨n, chain, tree, hexpand⟩ := hsource.read hparse
      obtain ⟨found, -, -, hfound, -⟩ := expand_mentions hexpand hname
      exact absurd (hfound.symm.trans hnone) (by simp)

theorem straight_of_read (hparse : l.parse request = .ok root) : l.Straight request := by
  intro way last hway
  refine (List.pairwise_map.mp (hway.read hparse).1).imp fun hne => ⟨?_, ?_⟩
  · intro heq
    exact hne (congrArg Origin.key heq)
  · intro hsame
    exact hne hsame.key

/-! ## What recurs -/

/-- A key that comes again is that of the same source, or of its namesake. -/
theorem Way.recurs (hhome : l.files.Homed) (hway : l.Way request way last)
    (hmem : last.origin.key ∈ chainOf way) :
    ∃ o ∈ origins way, o = last.origin ∨ Namesakes o last.origin := by
  have hplaced : ∀ v ∈ way ++ [last], v.origin.Placed :=
    hway.forall_mem (fun _ _ _ => Found.placed hhome) (fun _ _ => Opened.placed hhome)
  obtain ⟨o, ho, hkey⟩ := List.mem_map.mp hmem
  obtain ⟨v, hv, rfl⟩ := List.mem_map.mp ho
  have hv' := hplaced v (List.mem_append_left _ hv)
  exact ⟨v.origin, ho, (Origin.key_eq_iff hv' (hplaced last (by simp))).mp hkey⟩

/-- No way circles if all are straight. -/
theorem Straight.not_circles (hhome : l.files.Homed) (h : l.Straight request) :
    ¬ l.Circles request e := by
  rintro ⟨way, last, hway, -, hmem⟩
  obtain ⟨o, ho, hsame⟩ := hway.recurs hhome hmem
  have happend : origins (way ++ [last]) = origins way ++ [last.origin] := by simp [origins]
  have hstraight := h way last hway
  rw [happend, List.pairwise_append] at hstraight
  obtain ⟨-, -, hapart⟩ := hstraight
  obtain ⟨hne, hno⟩ := hapart o ho last.origin (List.mem_singleton_self _)
  exact hsame.elim hne hno

/-- **A reported cycle goes round through one source, or through namesakes.** Where nothing is out
of order, such a way is the only reason not to be read. -/
theorem parse_recurs (hhome : l.files.Homed) (request : Request) :
    (∀ name keys, l.parse request = .error (.inclusion name (.cycle keys)) →
      ∃ way last, l.Way request way last ∧ name = last.source.name
        ∧ keys = (origins (way ++ [last])).map Origin.key
        ∧ ∃ o ∈ origins way, o = last.origin ∨ Namesakes o last.origin)
    ∧ ((∃ root, l.parse request = .ok root)
      ↔ (∀ e, ¬ l.Disorder request e) ∧ l.Straight request) := by
  constructor
  · intro name keys h
    rcases parse_fails h with hdisorder | ⟨way, last, hway, he, hmem⟩
    · exact absurd rfl hdisorder.not_cycle
    · injection he with hname hfault
      injection hfault with hkeys
      exact ⟨way, last, hway, hname, hkeys, hway.recurs hhome hmem⟩
  · constructor
    · rintro ⟨root, h⟩
      exact ⟨fun e hdisorder => hdisorder.not_read h, straight_of_read h⟩
    · rintro ⟨horder, hstraight⟩
      cases h : l.parse request with
      | ok root => exact ⟨root, rfl⟩
      | error e =>
          rcases parse_fails h with hdisorder | hcircles
          · exact absurd hdisorder (horder e)
          · exact absurd hcircles (hstraight.not_circles hhome)

/-- Files below a home, with text for names and for contents. -/
def textFiles (home : List String) (files : List (List String × String)) : FileTree where
  home := home.map Text.encode
  entries := files.map fun (place, text) => (place.map Text.encode, .file (Text.encode text))

/-- A file is one source under all its names: coming back to it is a cycle, including it twice side
by side is none. -/
theorem parse_recurs_renamed :
    let l : Library := ⟨[], none, textFiles ["work"]
      [(["work", "main.cfg"], "@include sub/part.cfg"),
        (["work", "sub", "part.cfg"], "@include ../main.cfg"),
        (["work", "top.cfg"], "@include leaf.cfg\n@include sub/../leaf.cfg"),
        (["work", "leaf.cfg"], "k = 1")]⟩
    let keys := ["/work/main.cfg", "/work/sub/part.cfg", "/work/main.cfg"]
    let main : Request := .file (Text.encode "main.cfg")
    let top : Request := .file (Text.encode "top.cfg")
    l.files.Homed
    ∧ l.parse main = .error (.inclusion "sub/../main.cfg" (.cycle keys))
    ∧ (∃ way last, l.Way main way last ∧ "sub/../main.cfg" = last.source.name
      ∧ keys = (origins (way ++ [last])).map Origin.key
      ∧ ∃ o ∈ origins way, o = last.origin ∨ Namesakes o last.origin)
    ∧ (∃ root, l.parse top = .ok root)
    ∧ (∀ e, ¬ l.Disorder top e) ∧ l.Straight top := by
  intro l keys main top
  have hhome : l.files.Homed := by
    intro piece hpiece
    rw [List.mem_singleton.mp hpiece]
    exact ⟨by decide, by decide⟩
  have hmain : l.parse main = .error (.inclusion "sub/../main.cfg" (.cycle keys)) := by
    decide +kernel
  have htop : (l.parse top).toOption.isSome := by decide +kernel
  obtain ⟨root, hroot⟩ := Option.isSome_iff_exists.mp htop
  have hread : ∃ root, l.parse top = .ok root := ⟨root, eq_ok_of_toOption hroot⟩
  exact ⟨hhome, hmain, (parse_recurs hhome _).1 _ _ hmain, hread,
    (parse_recurs hhome _).2.mp hread⟩

/-- Two directories whose names are no text: a file in one includes a file of the same name in the
other, and the two are shown alike. -/
example :
    let file (directory : UInt8) (name text : String) :=
      ([Text.encode "work", [directory], Text.encode name], FileEntry.file (Text.encode text))
    let l : Library := ⟨[], some [0xFE], [Text.encode "work"],
      [file 0xFF "main.cfg" "@include other.cfg", file 0xFE "other.cfg" "@include main.cfg",
        file 0xFE "main.cfg" "k = 1"]⟩
    l.parse (.file (0xFF :: Text.encode "/main.cfg"))
      = .error (.inclusion "\ufffd/main.cfg"
        (.cycle ["/work/\ufffd/main.cfg", "/work/\ufffd/other.cfg", "/work/\ufffd/main.cfg"])) := by
  decide +kernel

/-- A text registered under the absolute path of the file that includes it is taken for the file: a
cycle is reported, and no source is on any way twice. -/
theorem parse_namesake :
    let l : Library := ⟨[("/work/main.cfg", "k = 1")], none,
      textFiles ["work"] [(["work", "main.cfg"], "@include /work/main.cfg")]⟩
    let main : Request := .file (Text.encode "main.cfg")
    l.files.Homed
    ∧ l.parse main
      = .error (.inclusion "/work/main.cfg" (.cycle ["/work/main.cfg", "/work/main.cfg"]))
    ∧ ∀ way last, l.Way main way last → (origins (way ++ [last])).Nodup := by
  intro l main
  refine ⟨?_, by decide +kernel, fun way last hway => ?_⟩
  · intro piece hpiece
    rw [List.mem_singleton.mp hpiece]
    exact ⟨by decide, by decide⟩
  let place := [Text.encode "work", Text.encode "main.cfg"]
  have hplace : l.files.resolve (Text.encode "main.cfg") = .ok place := by decide +kernel
  have hfile : l.files.readText (Text.encode "main.cfg") = .ok "@include /work/main.cfg" := by
    decide +kernel
  have hlines : textLines "@include /work/main.cfg".toList
      = ["@include /work/main.cfg".toList] := by decide +kernel
  have hline : Line.read "@include /work/main.cfg".toList
      = .ok (.inclusion "/work/main.cfg") := by decide +kernel
  have hend : textLines "k = 1".toList = ["k = 1".toList] := by decide +kernel
  have hentry : Line.read "k = 1".toList = .ok (.entry "k" "1") := by decide +kernel
  -- the file includes the text, which includes nothing
  have hcourse : (origins way = [] ∧ last.origin = .file place
        ∧ last.source.text = "@include /work/main.cfg")
      ∨ (origins way = [.file place] ∧ last.origin = .registered "/work/main.cfg"
        ∧ last.source.text = "k = 1") := by
    induction hway with
    | first hfirst =>
        obtain ⟨hp, ht⟩ := hfirst
        rw [hplace] at hp
        rw [hfile] at ht
        injection hp with hp
        injection ht with ht
        exact Or.inl ⟨rfl, congrArg Origin.file hp.symm, ht.symm⟩
    | @next way v w _ hw ih =>
        obtain ⟨name, ⟨line, hmem, hread⟩, hfound⟩ := hw
        rcases ih with ⟨hway, horigin, htext⟩ | ⟨-, -, htext⟩
        · rw [htext, hlines, List.mem_singleton] at hmem
          rw [hmem, hline] at hread
          obtain rfl : "/work/main.cfg" = name := by simpa using hread
          rcases hfound with htext | ⟨hnone, -⟩
          · have htext := Option.some.inj htext
            refine Or.inr ⟨?_, rfl, htext.symm⟩
            simpa [origins, horigin] using hway
          · exact absurd hnone (by decide)
        · rw [htext, hend, List.mem_singleton] at hmem
          rw [hmem, hentry] at hread
          exact absurd hread (by simp)
  have happend : origins (way ++ [last]) = origins way ++ [last.origin] := by simp [origins]
  rw [happend]
  rcases hcourse with ⟨hway, horigin, -⟩ | ⟨hway, horigin, -⟩
  · rw [hway, horigin]
    exact List.nodup_singleton _
  · rw [hway, horigin]
    decide

end PacedNet.Config.Library
