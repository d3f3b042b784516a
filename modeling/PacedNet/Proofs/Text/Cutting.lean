import PacedNet.Text.Blank
import Mathlib.Data.List.DropRight
import Mathlib.Data.List.TakeWhile

/-!
# Trimming and splitting

Three ways to cut a text, and what is known of what they leave.

* **Trimming** leaves no blank at either end, and leaves a text alone that has
  none there.
* **Taking a run** takes all of it, and nothing more, if what comes next is of another kind.
* **Splitting** leaves pieces without the separator.

Neither adds a character: what is in a piece was in the text.
-/

namespace PacedNet.Text

/-! ## Runs -/

section

variable {p : Char → Bool} {ds rest : List Char}

theorem takeWhile_append (s : List Char) (h : ∀ c, rest.head? = some c → p c = false) :
    (s ++ rest).takeWhile p = s.takeWhile p
      ∧ (s ++ rest).dropWhile p = s.dropWhile p ++ rest := by
  induction s with
  | nil =>
      cases rest with
      | nil => exact ⟨rfl, rfl⟩
      | cons c rest =>
          have hc : ¬ p c = true := by simp [h c rfl]
          rw [List.nil_append, List.takeWhile_cons_of_neg hc, List.dropWhile_cons_of_neg hc]
          exact ⟨rfl, rfl⟩
  | cons c s ih =>
      by_cases hc : p c = true
      · rw [List.cons_append, List.takeWhile_cons_of_pos hc, List.takeWhile_cons_of_pos hc,
          List.dropWhile_cons_of_pos hc, List.dropWhile_cons_of_pos hc, ih.1]
        exact ⟨rfl, ih.2⟩
      · rw [List.cons_append, List.takeWhile_cons_of_neg hc, List.takeWhile_cons_of_neg hc,
          List.dropWhile_cons_of_neg hc, List.dropWhile_cons_of_neg hc]
        exact ⟨rfl, rfl⟩

/-- A run is taken as a whole, and nothing more, if what comes next is of another kind. -/
theorem takeWhile_run (hds : ∀ c ∈ ds, p c = true)
    (h : ∀ c, rest.head? = some c → p c = false) :
    (ds ++ rest).takeWhile p = ds ∧ (ds ++ rest).dropWhile p = rest := by
  obtain ⟨htake, hdrop⟩ := takeWhile_append ds h
  rw [htake, hdrop, List.takeWhile_eq_self_iff.mpr hds, List.dropWhile_eq_nil_iff.mpr hds]
  exact ⟨rfl, rfl⟩

end

/-! ## Trimmed texts -/

/-- No blank at either end. -/
structure Trimmed (s : List Char) : Prop where
  head : ∀ c, s.head? = some c → isBlank c = false
  last : ∀ c, s.getLast? = some c → isBlank c = false

theorem trimEnd_eq (s : List Char) : trimEnd s = s.rdropWhile isBlank := rfl

theorem mem_of_mem_trim {s : List Char} {c : Char} (h : c ∈ trim s) : c ∈ s := by
  have h1 : c ∈ trimStart s := (List.rdropWhile_prefix isBlank _).subset h
  exact List.dropWhile_subset isBlank h1

/-! ## What is trimmed stays -/

theorem trimStart_of_head {s : List Char} (h : ∀ c, s.head? = some c → isBlank c = false) :
    trimStart s = s := by
  cases s with
  | nil => rfl
  | cons c rest => exact List.dropWhile_cons_of_neg (by simp [h c rfl])

theorem trimEnd_of_last {s : List Char} (h : ∀ c, s.getLast? = some c → isBlank c = false) :
    trimEnd s = s := by
  rw [trimEnd_eq, List.rdropWhile_eq_self_iff]
  intro hs
  simp [h _ (List.getLast?_eq_some_getLast hs)]

theorem trim_of_trimmed {s : List Char} (h : Trimmed s) : trim s = s := by
  unfold trim
  rw [trimStart_of_head h.head, trimEnd_of_last h.last]

/-! ## What trimming leaves is trimmed -/

theorem head?_trimStart {s : List Char} {c : Char} (h : (trimStart s).head? = some c) :
    isBlank c = false := by
  have := List.head?_dropWhile_not isBlank s
  unfold trimStart at h
  rw [h] at this
  simpa using this

theorem getLast?_trimEnd {s : List Char} {c : Char} (h : (trimEnd s).getLast? = some c) :
    isBlank c = false := by
  have hne : trimEnd s ≠ [] := by intro he; rw [he] at h; simp at h
  have hlast : ¬ isBlank ((trimEnd s).getLast hne) := List.rdropWhile_last_not isBlank s hne
  rw [List.getLast?_eq_some_getLast hne] at h
  simpa [← Option.some.inj h] using hlast

theorem trimmed_trim (s : List Char) : Trimmed (trim s) := by
  refine ⟨fun c hc => ?_, fun c hc => getLast?_trimEnd hc⟩
  -- the end is trimmed last, which leaves the first character where it was
  have hpre : trim s <+: trimStart s := List.rdropWhile_prefix isBlank _
  obtain ⟨rest, hrest⟩ := hpre
  refine head?_trimStart (s := s) (c := c) ?_
  rw [← hrest, List.head?_append, hc]
  rfl

/-! ## Blanks around -/

theorem trim_cons_blank {b : Char} {s : List Char} (hb : isBlank b = true) :
    trim (b :: s) = trim s := by
  unfold trim trimStart
  rw [List.dropWhile_cons_of_pos hb]

theorem trimEnd_concat_blank {b : Char} {s : List Char} (hb : isBlank b = true) :
    trimEnd (s ++ [b]) = trimEnd s := List.rdropWhile_concat_pos isBlank s b hb

theorem trim_concat_blank {b : Char} {s : List Char} (hs : Trimmed s) (hb : isBlank b = true) :
    trim (s ++ [b]) = s := by
  cases s with
  | nil => rw [List.nil_append, trim_cons_blank hb]; rfl
  | cons c rest =>
      unfold trim
      rw [trimStart_of_head (s := c :: rest ++ [b]) (by simpa using hs.head),
        trimEnd_concat_blank hb, trimEnd_of_last hs.last]

/-- Blanks behind a text are all that trimming its end takes from it. -/
theorem trimEnd_append {s back : List Char} (hs : ∀ c, s.getLast? = some c → isBlank c = false)
    (hback : ∀ c ∈ back, isBlank c = true) : trimEnd (s ++ back) = s := by
  have hend : (back.reverse ++ s.reverse).dropWhile isBlank = s.reverse :=
    (takeWhile_run (fun c hc => hback c (List.mem_reverse.mp hc))
      (by rw [List.head?_reverse]; exact hs)).2
  rw [trimEnd, List.reverse_append, hend, List.reverse_reverse]

/-- Blanks around a text are all that trimming takes from it. -/
theorem trim_append {front s back : List Char} (hfront : ∀ c ∈ front, isBlank c = true)
    (hs : Trimmed s) (hback : ∀ c ∈ back, isBlank c = true) : trim (front ++ (s ++ back)) = s := by
  cases s with
  | nil =>
      have hall : ∀ c ∈ front ++ back, isBlank c = true := by
        intro c hc
        rcases List.mem_append.mp hc with hc | hc
        · exact hfront c hc
        · exact hback c hc
      unfold trim trimStart
      rw [List.nil_append, List.dropWhile_eq_nil_iff.mpr hall]
      rfl
  | cons d s =>
      have hstart : trimStart (front ++ (d :: s ++ back)) = d :: s ++ back :=
        (takeWhile_run hfront (by simpa using hs.head)).2
      unfold trim
      rw [hstart, trimEnd_append hs.last hback]

theorem exists_trimStart (s : List Char) :
    ∃ front, (∀ c ∈ front, isBlank c = true) ∧ s = front ++ trimStart s :=
  ⟨_, fun _ hc => List.mem_takeWhile_imp hc, (List.takeWhile_append_dropWhile).symm⟩

theorem exists_trimEnd (s : List Char) :
    ∃ back, (∀ c ∈ back, isBlank c = true) ∧ s = trimEnd s ++ back := by
  refine ⟨(s.reverse.takeWhile isBlank).reverse,
    fun c hc => List.mem_takeWhile_imp (List.mem_reverse.mp hc), ?_⟩
  unfold trimEnd
  rw [← List.reverse_append, List.takeWhile_append_dropWhile, List.reverse_reverse]

theorem exists_trim (s : List Char) : ∃ front back, (∀ c ∈ front, isBlank c = true)
    ∧ (∀ c ∈ back, isBlank c = true) ∧ s = front ++ (trim s ++ back) := by
  obtain ⟨front, hfront, hs⟩ := exists_trimStart s
  obtain ⟨back, hback, hend⟩ := exists_trimEnd (trimStart s)
  exact ⟨front, back, hfront, hback, hs.trans (congrArg (front ++ ·) hend)⟩

/-- What is left of the start of a text that starts without a blank starts as the text does. -/
theorem head?_trim_of_prefix {p s : List Char}
    (hs : ∀ c, s.head? = some c → isBlank c = false) (hp : p <+: s) (hne : trim p ≠ []) :
    (trim p).head? = s.head? := by
  obtain ⟨rest, rfl⟩ := hp
  cases p with
  | nil => exact absurd rfl hne
  | cons c p =>
      have hstart : trimStart (c :: p) = c :: p := trimStart_of_head (by simpa using hs)
      obtain ⟨cut, hcut⟩ : trim (c :: p) <+: c :: p := by
        unfold trim
        rw [hstart]
        exact List.rdropWhile_prefix isBlank _
      obtain ⟨d, left, hleft⟩ := List.exists_cons_of_ne_nil hne
      rw [hleft] at hcut ⊢
      exact congrArg some (List.cons.inj hcut).1

/-! ## Pieces between separators -/

/-- A piece has no separator in it, and nothing that the whole has not. -/
theorem mem_splitOn {α : Type} [BEq α] [LawfulBEq α] {a : α} {s piece : List α}
    (h : piece ∈ s.splitOn a) : a ∉ piece ∧ ∀ c ∈ piece, c ∈ s := by
  induction s generalizing piece with
  | nil =>
      rw [List.splitOn_nil, List.mem_singleton] at h
      subst h
      exact ⟨by simp, by simp⟩
  | cons c rest ih =>
      rw [List.splitOn_cons_eq_if_modifyHead] at h
      by_cases hc : (c == a) = true
      · rw [if_pos hc] at h
        rcases List.mem_cons.mp h with h | h
        · subst h; exact ⟨by simp, by simp⟩
        · exact ⟨(ih h).1, fun x hx => List.mem_cons_of_mem _ ((ih h).2 x hx)⟩
      · rw [if_neg hc] at h
        have hca : a ≠ c := fun he => hc (by rw [he]; exact beq_self_eq_true c)
        obtain ⟨first, more, hsplit⟩ := List.exists_cons_of_ne_nil (List.splitOn_ne_nil a rest)
        rw [hsplit] at h ih
        rcases List.mem_cons.mp h with h | h
        · -- the first piece, which the character joins
          subst h
          obtain ⟨hna, hsub⟩ := ih List.mem_cons_self
          refine ⟨?_, fun x hx => ?_⟩
          · simpa [hca] using hna
          · rcases List.mem_cons.mp hx with hx | hx
            · rw [hx]; exact List.mem_cons_self
            · exact List.mem_cons_of_mem _ (hsub x hx)
        · obtain ⟨hna, hsub⟩ := ih (List.mem_cons_of_mem _ h)
          exact ⟨hna, fun x hx => List.mem_cons_of_mem _ (hsub x hx)⟩

end PacedNet.Text
