import PacedNet.Proofs.Config.LineShape

/-!
# What a line may say

A line without a directive says nothing, opens a section or makes an entry. `Phrase` says how it
has to be written for that, by the parts it is put together of and with no word on how it is read.
Reading finds exactly those parts (`read_iff`): a line that can be put together in none of these
ways cannot be read, and in no line are there two ways.
-/

namespace PacedNet.Config

/-- A trimmed line without its comment, and what it says. -/
inductive Phrase : List Char → Line → Prop where
  | blank : Phrase [] .blank
  | heading {pieces : List (List Char)} :
      pieces ≠ [] → (∀ piece ∈ pieces, '.' ∉ piece ∧ Text.trim piece ≠ []) →
      Phrase ('[' :: ['.'].intercalate pieces ++ [']'])
        (.heading (pieces.map fun piece => String.ofList (Text.trim piece)))
  | entry {key value : List Char} :
      '=' ∉ key → key.head? ≠ some '[' → key.head? ≠ some '@' → Text.trim key ≠ [] →
      Phrase (key ++ '=' :: value)
        (.entry (String.ofList (Text.trim key)) (String.ofList (Text.trim value)))

/-- What a line says once its comment and the blanks around it are gone. -/
def Line.Says (line : List Char) (r : Line) : Prop :=
  Phrase (Text.trim (Line.withoutComment line)) r

variable {rest s : List Char} {r : Line}

theorem readHeading_phrase (h : Line.readHeading rest = .ok r) : Phrase ('[' :: rest) r := by
  unfold Line.readHeading at h
  split at h
  · rename_i hlast
    dsimp only at h
    split at h
    · exact absurd h (by simp)
    · rename_i hall
      injection h with h
      have hrest : '[' :: rest = '[' :: ['.'].intercalate (rest.dropLast.splitOn '.') ++ [']'] := by
        rw [List.intercalate_splitOn, List.cons_append, List.dropLast_append_getLast? _ hlast]
      rw [hrest, ← h, List.map_map]
      refine .heading (List.splitOn_ne_nil _ _) fun piece hpiece => ⟨(Text.mem_splitOn hpiece).1, ?_⟩
      intro hnil
      refine hall (List.any_eq_true.mpr ⟨_, List.mem_map_of_mem hpiece, ?_⟩)
      rw [hnil]
      rfl
  · exact absurd h (by simp)

theorem readEntry_phrase (hb : s.head? ≠ some '[') (ha : s.head? ≠ some '@')
    (h : Line.readEntry s = .ok r) : Phrase s r := by
  unfold Line.readEntry at h
  split at h
  · exact absurd h (by simp)
  · rename_i sign value hdrop
    dsimp only at h
    split at h
    · exact absurd h (by simp)
    · rename_i hkey
      injection h with h
      -- the line is cut at its first sign
      have hsign : sign = '=' := by
        have := List.head?_dropWhile_not (· ≠ '=') s
        rw [hdrop] at this
        simpa using this
      subst hsign
      have hline := List.takeWhile_append_dropWhile (p := fun c => decide (c ≠ '=')) (l := s)
      rw [hdrop] at hline
      have hhead (c : Char) (hs : s.head? ≠ some c) : (s.takeWhile (· ≠ '=')).head? ≠ some c := by
        intro hkey
        obtain ⟨more, hmore⟩ := List.head?_eq_some_iff.mp hkey
        exact hs (by rw [← hline, hmore]; rfl)
      have hphrase : Phrase (s.takeWhile (· ≠ '=') ++ '=' :: value)
          (.entry (String.ofList (Text.trim (s.takeWhile (· ≠ '='))))
            (String.ofList (Text.trim value))) := by
        refine .entry (fun hm => ?_) (hhead _ hb) (hhead _ ha) fun hnil => hkey (by rw [hnil]; rfl)
        simpa using List.mem_takeWhile_imp hm
      rw [hline] at hphrase
      exact h ▸ hphrase

/-- **Reading a line is finding what it says.** -/
theorem read_iff {line : List Char} (h : (Text.trim (Line.withoutComment line)).head? ≠ some '@') :
    Line.read line = .ok r ↔ Line.Says line r := by
  unfold Line.read Line.Says
  constructor
  · intro hread
    split at hread
    · injection hread with hread
      rename_i hnil
      rw [hnil, ← hread]
      exact .blank
    · rename_i rest hrest
      rw [hrest]
      exact readHeading_phrase hread
    · rename_i rest hrest
      exact absurd (by rw [hrest]; rfl) h
    · rename_i _ _ hbracket hat
      refine readEntry_phrase (fun he => ?_) h hread
      obtain ⟨rest, hrest⟩ := List.head?_eq_some_iff.mp he
      exact hbracket rest hrest
  · intro hsays
    generalize Text.trim (Line.withoutComment line) = s at hsays
    cases hsays with
    | blank => rfl
    | heading hne hpieces => exact readHeading_intercalate hne hpieces
    | @entry key value hkey hb ha hne =>
        have hread := readEntry_append key value hkey hne
        cases key with
        | nil => exact absurd rfl hne
        | cons c key =>
            have hc : c ≠ '[' := fun he => hb (by rw [he]; rfl)
            have hc' : c ≠ '@' := fun he => ha (by rw [he]; rfl)
            rw [List.cons_append] at hread ⊢
            split
            · rename_i hnil; exact absurd hnil (by simp)
            · rename_i hcons; exact absurd (List.cons.inj hcons).1 hc
            · rename_i hcons; exact absurd (List.cons.inj hcons).1 hc'
            · exact hread

end PacedNet.Config
