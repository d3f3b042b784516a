import PacedNet.Config.Line
import PacedNet.Proofs.Text.Cutting

/-!
# What a line holds

A line is read after its comment is removed and it is trimmed, so the names and
values it yields are of a certain **shape**: none of them has a blank at either
end or a comment sign in it, a section's name has no point, a key no equals sign
and neither sign that would make its line a heading or a directive.

That shape is exactly what lets them be written down and read back: a heading or
an entry made of well-shaped parts reads as itself.
-/

namespace PacedNet.Config

/-- Text that may stand in a line: no blank at either end, no comment sign, no line feed. -/
structure Plain (s : List Char) : Prop where
  trimmed : Text.Trimmed s
  noComment : '#' ∉ s
  noFeed : '\n' ∉ s

/-- The name of a section. -/
structure IsName (s : String) : Prop where
  plain : Plain s.toList
  nonempty : s ≠ ""
  noPoint : '.' ∉ s.toList

/-- The key of an entry. -/
structure IsKey (s : String) : Prop where
  plain : Plain s.toList
  nonempty : s ≠ ""
  noEquals : '=' ∉ s.toList
  noBracket : s.toList.head? ≠ some '['
  noAt : s.toList.head? ≠ some '@'

/-- The value of an entry. -/
def IsValue (s : String) : Prop := Plain s.toList

/-- The parts of a line are of the shape that reading gives them. -/
def Line.Shaped : Line → Prop
  | .blank => True
  | .heading names => names ≠ [] ∧ ∀ n ∈ names, IsName n
  | .entry key value => IsKey key ∧ IsValue value
  | .inclusion _ => True

/-! ## Parts of a line -/

theorem toList_ne_nil {s : String} (h : s ≠ "") : s.toList ≠ [] := by
  intro he
  exact h (String.toList_inj.mp (by rw [he]; rfl))

theorem plain_trim {s t : List Char} (ht : '#' ∉ t) (hf : '\n' ∉ t) (hst : ∀ c ∈ s, c ∈ t) :
    Plain (Text.trim s) := by
  refine ⟨Text.trimmed_trim s, fun h => ht ?_, fun h => hf ?_⟩
  · exact hst _ (Text.mem_of_mem_trim h)
  · exact hst _ (Text.mem_of_mem_trim h)

theorem plain_line {s : List Char} (hs : '\n' ∉ s) : Plain (Text.trim (Line.withoutComment s)) := by
  refine plain_trim (t := Line.withoutComment s) ?_ ?_ fun c hc => hc
  · intro h
    simpa using List.mem_takeWhile_imp h
  · intro h
    exact hs ((List.takeWhile_subset _) h)

/-! ## Reading gives the shape -/

theorem readHeading_shaped {rest : List Char} {line : Line} (hc : '#' ∉ rest) (hf : '\n' ∉ rest)
    (h : Line.readHeading rest = .ok line) : line.Shaped := by
  unfold Line.readHeading at h
  split at h
  · dsimp only at h
    split at h
    · exact absurd h (by simp)
    · rename_i hall
      injection h with h
      subst h
      refine ⟨by simp, fun n hn => ?_⟩
      obtain ⟨name, hname, rfl⟩ := List.mem_map.mp hn
      obtain ⟨piece, hpiece, rfl⟩ := List.mem_map.mp hname
      obtain ⟨hpoint, hsub⟩ := Text.mem_splitOn hpiece
      have hin : ∀ c ∈ piece, c ∈ rest := fun c hc => List.dropLast_subset rest (hsub c hc)
      refine ⟨?_, ?_, ?_⟩
      · rw [String.toList_ofList]; exact plain_trim hc hf hin
      · intro he
        refine hall (List.any_eq_true.mpr ⟨Text.trim piece, hname, ?_⟩)
        rw [← String.toList_ofList (l := Text.trim piece), he]
        rfl
      · rw [String.toList_ofList]; exact fun hp => hpoint (Text.mem_of_mem_trim hp)
  · exact absurd h (by simp)

theorem readDirective_shaped {rest : List Char} {line : Line}
    (h : Line.readDirective rest = .ok line) : line.Shaped := by
  unfold Line.readDirective at h
  dsimp only at h
  split at h
  · split at h
    · exact absurd h (by simp)
    · injection h with h; subst h; trivial
  · exact absurd h (by simp)

theorem readEntry_shaped {s : List Char} {line : Line} (hs : Plain s)
    (hb : s.head? ≠ some '[') (ha : s.head? ≠ some '@') (h : Line.readEntry s = .ok line) :
    line.Shaped := by
  unfold Line.readEntry at h
  split at h
  · exact absurd h (by simp)
  · rename_i x value hdrop
    dsimp only at h
    split at h
    · exact absurd h (by simp)
    · rename_i hne
      injection h with h
      subst h
      have hkey : ∀ c ∈ s.takeWhile (· ≠ '='), c ∈ s := fun c hc => List.takeWhile_subset _ hc
      have hval : ∀ c ∈ value, c ∈ s := fun c hc =>
        List.dropWhile_subset _ (by rw [hdrop]; exact List.mem_cons_of_mem _ hc)
      have hkeyne : Text.trim (s.takeWhile (· ≠ '=')) ≠ [] := by
        intro he; exact hne (by rw [he]; rfl)
      -- the line does not start with a blank, so neither does what stands before the sign, and
      -- the key starts as the line does
      have hhead : (Text.trim (s.takeWhile (· ≠ '='))).head? = s.head? :=
        Text.head?_trim_of_prefix hs.trimmed.head (List.takeWhile_prefix _) hkeyne
      refine ⟨⟨?_, ?_, ?_, ?_, ?_⟩, ?_⟩
      · rw [String.toList_ofList]; exact plain_trim hs.noComment hs.noFeed hkey
      · intro he
        exact hkeyne (by rw [← String.toList_ofList (l := Text.trim _), he]; rfl)
      · rw [String.toList_ofList]
        intro hm
        simpa using List.mem_takeWhile_imp (Text.mem_of_mem_trim hm)
      · rw [String.toList_ofList, hhead]; exact hb
      · rw [String.toList_ofList, hhead]; exact ha
      · unfold IsValue
        rw [String.toList_ofList]; exact plain_trim hs.noComment hs.noFeed hval

/-- **What a line holds is well shaped.** -/
theorem read_shaped {s : List Char} {line : Line} (hs : '\n' ∉ s) (h : Line.read s = .ok line) :
    line.Shaped := by
  have hp := plain_line hs
  unfold Line.read at h
  split at h
  · injection h with h; subst h; trivial
  · rename_i rest htext
    rw [htext] at hp
    exact readHeading_shaped (fun hm => hp.noComment (List.mem_cons_of_mem _ hm))
      (fun hm => hp.noFeed (List.mem_cons_of_mem _ hm)) h
  · exact readDirective_shaped h
  · rename_i _ _ hbracket hat
    refine readEntry_shaped hp (fun he => ?_) (fun he => ?_) h
    · obtain ⟨rest, hrest⟩ := List.head?_eq_some_iff.mp he
      exact hbracket rest hrest
    · obtain ⟨rest, hrest⟩ := List.head?_eq_some_iff.mp he
      exact hat rest hrest

/-! ## What has the shape reads back -/

theorem withoutComment_of_not_mem {s : List Char} (h : '#' ∉ s) : Line.withoutComment s = s := by
  unfold Line.withoutComment
  refine List.takeWhile_eq_self_iff.mpr fun c hc => ?_
  simpa using fun he : c = '#' => h (he ▸ hc)

theorem read_nil : Line.read [] = .ok .blank := rfl

/-- The text of a dotted path. -/
theorem toList_path (names : List String) :
    (".".intercalate names).toList = ['.'].intercalate (names.map String.toList) := by
  rw [String.toList_intercalate]
  rfl

theorem not_mem_path {names : List String} {c : Char} (hc : c ≠ '.')
    (h : ∀ n ∈ names, c ∉ n.toList) : c ∉ (".".intercalate names).toList := by
  rw [toList_path]
  induction names with
  | nil => simp [List.intercalate]
  | cons n rest ih =>
      have hrest := ih fun m hm => h m (List.mem_cons_of_mem _ hm)
      cases rest with
      | nil => simpa using h n List.mem_cons_self
      | cons m rest =>
          rw [List.map_cons, List.map_cons, List.intercalate_cons_cons]
          simp only [List.mem_append, List.mem_singleton, not_or]
          exact ⟨⟨h n List.mem_cons_self, hc⟩, hrest⟩

theorem plain_path {names : List String} {c : Char} (hc : c = '#' ∨ c = '\n')
    (h : ∀ n ∈ names, IsName n) : c ∉ (".".intercalate names).toList := by
  refine not_mem_path (by rcases hc with rfl | rfl <;> decide) fun n hn => ?_
  rcases hc with rfl | rfl
  · exact (h n hn).plain.noComment
  · exact (h n hn).plain.noFeed

/-- A line is cut at its first sign. -/
theorem readEntry_append (key value : List Char) (hkey : '=' ∉ key)
    (hne : Text.trim key ≠ []) :
    Line.readEntry (key ++ '=' :: value)
      = .ok (.entry (String.ofList (Text.trim key)) (String.ofList (Text.trim value))) := by
  have hbefore : ∀ c ∈ key, decide (c ≠ '=') = true := fun c hc =>
    decide_eq_true fun he => hkey (he ▸ hc)
  rw [Line.readEntry, List.dropWhile_append_of_pos hbefore, List.takeWhile_append_of_pos hbefore]
  rw [show List.dropWhile (fun c => decide (c ≠ '=')) ('=' :: value) = '=' :: value from rfl,
    show List.takeWhile (fun c => decide (c ≠ '=')) ('=' :: value) = [] from rfl]
  dsimp only
  rw [List.append_nil, if_neg (by simpa using hne)]

/-- No piece has a point, so a heading is split where it was joined. -/
theorem readHeading_intercalate {pieces : List (List Char)} (hne : pieces ≠ [])
    (h : ∀ piece ∈ pieces, '.' ∉ piece ∧ Text.trim piece ≠ []) :
    Line.readHeading (['.'].intercalate pieces ++ [']'])
      = .ok (.heading (pieces.map fun piece => String.ofList (Text.trim piece))) := by
  have hsplit : (['.'].intercalate pieces).splitOn '.' = pieces :=
    List.splitOn_intercalate '.' (fun piece hpiece => (h piece hpiece).1) hne
  have hfull : (pieces.map Text.trim).any List.isEmpty = false := by
    rw [List.any_eq_false]
    intro name hname
    obtain ⟨piece, hpiece, rfl⟩ := List.mem_map.mp hname
    simpa using (h piece hpiece).2
  rw [Line.readHeading, if_pos (by simp), List.dropLast_concat, hsplit]
  dsimp only
  rw [hfull, List.map_map]
  rfl

/-- **A heading of well-shaped names reads as itself.** -/
theorem read_heading {names : List String} {path : String} (hpath : path = ".".intercalate names)
    (hne : names ≠ []) (h : ∀ n ∈ names, IsName n) :
    Line.read (s!"[{path}]").toList = .ok (.heading names) := by
  have htext : (s!"[{path}]").toList = '[' :: ((".".intercalate names).toList ++ [']']) := by
    rw [← hpath]
    simp only [toString, String.toList_append]
    rfl
  have hcomment : '#' ∉ '[' :: ((".".intercalate names).toList ++ [']']) := by
    simpa using plain_path (Or.inl rfl) h
  have htrim : Text.Trimmed ('[' :: ((".".intercalate names).toList ++ [']'])) := by
    refine ⟨fun c hc => ?_, fun c hc => ?_⟩
    · rw [List.head?_cons] at hc; injection hc with hc; subst hc; decide
    · rw [← List.cons_append, List.getLast?_concat] at hc; injection hc with hc; subst hc; decide
  have hnames : (names.map String.toList).map (fun piece => String.ofList (Text.trim piece))
      = names := by
    rw [List.map_map]
    conv_rhs => rw [← List.map_id names]
    refine List.map_congr_left fun n hn => ?_
    rw [Function.comp, Text.trim_of_trimmed (h n hn).plain.trimmed, String.ofList_toList, id]
  rw [htext, Line.read, withoutComment_of_not_mem hcomment, Text.trim_of_trimmed htrim]
  show Line.readHeading _ = _
  rw [toList_path, readHeading_intercalate (by simpa using hne) fun piece hpiece => ?_, hnames]
  obtain ⟨n, hn, rfl⟩ := List.mem_map.mp hpiece
  rw [Text.trim_of_trimmed (h n hn).plain.trimmed]
  exact ⟨(h n hn).noPoint, toList_ne_nil (h n hn).nonempty⟩

/-- What a written entry is once its line is trimmed: an empty value leaves the blank before it at
the end of the line. -/
theorem trim_written {key value : List Char} (hk : Text.Trimmed key) (hne : key ≠ [])
    (hv : Text.Trimmed value) :
    ∃ rest, Text.trim (key ++ ' ' :: '=' :: ' ' :: value) = key ++ ' ' :: '=' :: rest
      ∧ Text.trim rest = value := by
  by_cases hval : value = []
  · subst hval
    refine ⟨[], ?_, rfl⟩
    have hbare : Text.Trimmed (key ++ [' ', '=']) := by
      refine ⟨fun c hc => hk.head c ?_, fun c hc => ?_⟩
      · rwa [List.head?_append_of_ne_nil key hne] at hc
      · rw [List.getLast?_append_of_ne_nil key (by simp)] at hc
        injection hc with hc; subst hc; decide
    have := Text.trim_concat_blank hbare (b := ' ') (by decide)
    simpa using this
  · refine ⟨' ' :: value, ?_, ?_⟩
    · refine Text.trim_of_trimmed ⟨fun c hc => hk.head c ?_, fun c hc => hv.last c ?_⟩
      · rwa [List.head?_append_of_ne_nil key hne] at hc
      · rw [show key ++ ' ' :: '=' :: ' ' :: value = (key ++ [' ', '=', ' ']) ++ value by simp,
          List.getLast?_append_of_ne_nil _ hval] at hc
        exact hc
    · rw [Text.trim_cons_blank (by decide), Text.trim_of_trimmed hv]

/-- **An entry of a well-shaped key and value reads as itself.** -/
theorem read_entry {key value : String} (hk : IsKey key) (hv : IsValue value) :
    Line.read (s!"{key} = {value}").toList = .ok (.entry key value) := by
  have htext : (s!"{key} = {value}").toList
      = key.toList ++ ' ' :: '=' :: ' ' :: value.toList := by
    simp only [toString, String.toList_append, List.append_assoc]
    rfl
  have hcomment : '#' ∉ key.toList ++ ' ' :: '=' :: ' ' :: value.toList := by
    simpa using ⟨hk.plain.noComment, hv.noComment⟩
  have hkeyne := toList_ne_nil hk.nonempty
  obtain ⟨rest, htrim, hrest⟩ := trim_written hk.plain.trimmed hkeyne hv.trimmed
  have hkeytrim : Text.trim (key.toList ++ [' ']) = key.toList :=
    Text.trim_concat_blank hk.plain.trimmed (by decide)
  have hread : Line.readEntry (key.toList ++ ' ' :: '=' :: rest) = .ok (.entry key value) := by
    have hcut := readEntry_append (key.toList ++ [' ']) rest (by simpa using hk.noEquals)
      (by rwa [hkeytrim])
    rw [hkeytrim, hrest, String.ofList_toList, String.ofList_toList] at hcut
    simpa using hcut
  obtain ⟨c, tail, hkey⟩ := List.exists_cons_of_ne_nil hkeyne
  have hb : c ≠ '[' := fun he => hk.noBracket (by rw [hkey, he]; rfl)
  have ha : c ≠ '@' := fun he => hk.noAt (by rw [hkey, he]; rfl)
  rw [htext, Line.read, withoutComment_of_not_mem hcomment, htrim]
  rw [hkey] at hread ⊢
  split
  · rename_i hnil; exact absurd hnil (by simp)
  · rename_i hcons; exact absurd (List.cons.inj hcons).1 hb
  · rename_i hcons; exact absurd (List.cons.inj hcons).1 ha
  · exact hread

end PacedNet.Config
