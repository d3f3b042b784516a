import PacedNet.Proofs.Halves

/-!
# How shares are written

A share is written as a decimal, a percentage or a size. The first two are a run of digits, with or
without a point and more digits behind it, with or without a percent sign, and blanks at either end
and in front of the sign. Of a text that is written so the share is read, and of no other
(`readShare_eq_some`): what has the shape of a number is one. Behind the number of a size there is a
unit, and no percent sign and no digit, so that the grammars have no text in common
(`not_spells_of_parse`), and it does not matter which is tried first.
-/

namespace PacedNet

/-- Digits, with or without a point and more digits behind it. -/
structure SpellsDecimal (whole fraction number : List Char) : Prop where
  nonempty : whole ≠ []
  digits : ∀ c ∈ whole, isDigit c = true
  fractionDigits : ∀ c ∈ fraction, isDigit c = true
  spells : SpellsNumber whole fraction number

/-- The parts of a share that is written as a decimal or a percentage. -/
structure Portion where
  whole : List Char
  /-- The digits behind the point, if there is one. -/
  fraction : List Char
  percent : Bool

namespace Portion

def number (x : Portion) : Decimal := ⟨digitsValue (x.whole ++ x.fraction), -x.fraction.length⟩

def sign (x : Portion) : List Char := if x.percent then ['%'] else []

/-- A share as it is written, which as a regular expression is `\s*\d+(\.\d*)?\s*%?\s*`. -/
def Spells (x : Portion) (s : List Char) : Prop :=
  ∃ front number gap back, (∀ c ∈ front, Text.isBlank c = true) ∧ (∀ c ∈ gap, Text.isBlank c = true)
    ∧ (∀ c ∈ back, Text.isBlank c = true) ∧ SpellsDecimal x.whole x.fraction number
    ∧ s = front ++ (number ++ (gap ++ (x.sign ++ back)))

/-- The number that the parts stand for, or a hundredth of it. -/
def value (x : Portion) : Binary64 :=
  let number : Binary64 := .ofExact false x.number.toRat
  if x.percent then number.div (.finite false 100) else number

end Portion

/-! ## Numbers -/

variable {s whole fraction number : List Char}

theorem SpellsDecimal.head (h : SpellsDecimal whole fraction number) :
    ∃ c, number.head? = some c ∧ isDigit c = true := by
  obtain ⟨c, more, rfl⟩ := List.exists_cons_of_ne_nil h.nonempty
  exact ⟨c, ByteSize.head?_spells h.spells h.nonempty, h.digits c List.mem_cons_self⟩

/-- What a number is written with is a digit or a point. -/
theorem SpellsDecimal.mem {c : Char} (h : SpellsDecimal whole fraction number) (hc : c ∈ number) :
    isDigit c = true ∨ c = '.' := by
  cases h.spells with
  | whole => exact .inl (h.digits c hc)
  | pointed =>
      rcases List.mem_append.mp hc with hc | hc
      · exact .inl (h.digits c hc)
      · rcases List.mem_cons.mp hc with hc | hc
        · exact .inr hc
        · exact .inl (h.fractionDigits c hc)

/-- No blank is part of a number, and neither is a percent sign. -/
theorem SpellsDecimal.not_blank {c : Char} (h : SpellsDecimal whole fraction number)
    (hc : c ∈ number) : Text.isBlank c = false ∧ c ≠ '%' := by
  rcases h.mem hc with hdigit | rfl
  · refine ⟨isBlank_of_isDigit hdigit, ?_⟩
    rintro rfl
    exact absurd hdigit (by decide)
  · decide

theorem SpellsDecimal.trimmed (h : SpellsDecimal whole fraction number) : Text.Trimmed number :=
  ⟨fun _ hc => (h.not_blank (List.mem_of_head? hc)).1,
    fun _ hc => (h.not_blank (List.mem_of_getLast? hc)).1⟩

/-- A percent sign ends what starts with a digit. -/
theorem SpellsDecimal.trimmed_percent {gap : List Char}
    (h : SpellsDecimal whole fraction number) : Text.Trimmed (number ++ (gap ++ ['%'])) := by
  obtain ⟨first, hfirst, hdigit⟩ := h.head
  refine ⟨fun c hc => ?_, fun c hc => ?_⟩
  · rw [List.head?_append, hfirst] at hc
    obtain rfl := Option.some.inj hc
    exact isBlank_of_isDigit hdigit
  · rw [← List.append_assoc, List.getLast?_concat] at hc
    obtain rfl := Option.some.inj hc
    decide

/-- What is rounded is divided by one without another rounding. -/
theorem Binary.ofExact_div_one {negative : Bool} {a : Rat} (ha : 0 ≤ a) :
    (ofExact negative a : Binary64).div (.finite false 1) = ofExact negative a := by
  have hagain := BinaryFormat.nearest_nearest (F := .double) (by decide) ha
  by_cases hlarge : BinaryFormat.double.largest < BinaryFormat.double.nearest a
  · have hinfinite : (ofExact negative a : Binary64) = .infinite negative := if_pos hlarge
    rw [hinfinite]
    cases negative <;> rfl
  · have hfits := not_lt.mp hlarge
    have hvalue : (ofExact negative a : Binary64)
        = .finite negative (BinaryFormat.double.nearest a) := ofExact_eq hfits
    rw [hvalue]
    simp only [div, one_ne_zero, if_false, div_one, Bool.bne_false]
    rw [ofExact_eq (by rwa [hagain]), hagain]

/-- A number as it is read, and divided by a hundred if it is a percentage. -/
theorem Portion.value_eq (x : Portion) : x.value
    = (Binary.ofExact false x.number.toRat).div (.ofInt (if x.percent = true then 100 else 1)) := by
  have hhundred : (Binary.ofInt 100 : Binary64) = .finite false 100 := by decide +kernel
  have hone : (Binary.ofInt 1 : Binary64) = .finite false 1 := by decide +kernel
  unfold Portion.value
  dsimp only
  split_ifs
  · rw [hhundred]
  · rw [hone, Binary.ofExact_div_one x.number.toRat_nonneg]

namespace Quota

/-! ## Reading a share -/

/-- Whether nothing but a point and digits follows the first digits. -/
def endsDecimal (s : List Char) : Bool :=
  match s with
  | [] => true
  | '.' :: fraction => fraction.all isDigit
  | _ => false

/-- The share that a number is of another. -/
def readDecimal (number : List Char) (divisor : Int) : Option (Except FractionFault Binary64) :=
  if (number.takeWhile isDigit).isEmpty || !endsDecimal (number.dropWhile isDigit) then none
  else match (Binary.read? number : Option Binary64) with
    | some value => some (.ok (value.div (.ofInt divisor)))
    | none => some (.error (.badNumber (String.ofList number)))

/-- The number of a share that has no blanks around it, and what it is to be divided by. -/
def splitSign (s : List Char) : List Char × Int :=
  if s.getLast? = some '%' then (Text.trimEnd s.dropLast, 100) else (s, 1)

theorem readShare_eq (s : List Char) :
    readShare s = readDecimal (splitSign (Text.trim s)).1 (splitSign (Text.trim s)).2 := by
  unfold readShare splitSign readDecimal endsDecimal
  rfl

/-- What is looked at is the shape of a number. -/
theorem endsDecimal_iff :
    number.takeWhile isDigit ≠ [] ∧ endsDecimal (number.dropWhile isDigit) = true ↔
      ∃ whole fraction, SpellsDecimal whole fraction number := by
  constructor
  · rintro ⟨hne, hends⟩
    have hdigits : ∀ c ∈ number.takeWhile isDigit, isDigit c = true :=
      fun _ hc => List.mem_takeWhile_imp hc
    have hsplit := List.takeWhile_append_dropWhile (p := isDigit) (l := number)
    generalize number.takeWhile isDigit = whole at hne hdigits hsplit
    unfold endsDecimal at hends
    split at hends
    next hrest =>
      rw [hrest, List.append_nil] at hsplit
      exact ⟨whole, [], hne, hdigits, by simp, hsplit ▸ .whole whole⟩
    next fraction hrest =>
      rw [hrest] at hsplit
      exact ⟨whole, fraction, hne, hdigits, List.all_eq_true.mp hends,
        hsplit ▸ .pointed whole fraction⟩
    next => cases hends
  · rintro ⟨whole, fraction, h⟩
    cases h.spells with
    | whole =>
        rw [List.takeWhile_eq_self_iff.mpr h.digits, List.dropWhile_eq_nil_iff.mpr h.digits]
        exact ⟨h.nonempty, rfl⟩
    | pointed =>
        obtain ⟨htake, hdrop⟩ := Text.takeWhile_run h.digits (ByteSize.point_stops fraction)
        rw [htake, hdrop]
        exact ⟨h.nonempty, List.all_eq_true.mpr h.fractionDigits⟩

/-- **What has the shape of a number is one**: it is read, and read as that number, rounded. -/
theorem readDecimal_eq_some {divisor : Int} {result : Except FractionFault Binary64} :
    readDecimal number divisor = some result ↔
      ∃ whole fraction, SpellsDecimal whole fraction number
        ∧ result = .ok ((Binary.ofExact false
          (Decimal.toRat ⟨digitsValue (whole ++ fraction), -fraction.length⟩)).div
            (.ofInt divisor)) := by
  have hread {whole fraction : List Char} (h : SpellsDecimal whole fraction number) :
      readDecimal number divisor = some (.ok ((Binary.ofExact false
        (Decimal.toRat ⟨digitsValue (whole ++ fraction), -fraction.length⟩)).div
          (.ofInt divisor))) := by
    obtain ⟨hne, hends⟩ := endsDecimal_iff.mpr ⟨whole, fraction, h⟩
    unfold readDecimal
    rw [if_neg (by simpa [hends] using hne),
      ByteSize.read?_spells h.spells h.nonempty h.digits h.fractionDigits, Binary.ofDecimal_eq]
  constructor
  · intro hsome
    -- what has another shape is turned away before it is read
    have hshape : ∃ whole fraction, SpellsDecimal whole fraction number := by
      by_contra hnone
      rw [← endsDecimal_iff, not_and_or, not_not] at hnone
      have hnot : readDecimal number divisor = none := if_pos (by simpa using hnone)
      rw [hnot] at hsome
      cases hsome
    obtain ⟨whole, fraction, h⟩ := hshape
    exact ⟨whole, fraction, h, Option.some.inj (hsome.symm.trans (hread h))⟩
  · rintro ⟨whole, fraction, h, rfl⟩
    exact hread h

/-! ## Percent signs -/

theorem splitSign_number (h : SpellsDecimal whole fraction number) :
    splitSign number = (number, 1) :=
  if_neg fun hlast => (h.not_blank (List.mem_of_getLast? hlast)).2 rfl

theorem splitSign_percent {gap : List Char} (h : SpellsDecimal whole fraction number)
    (hgap : ∀ c ∈ gap, Text.isBlank c = true) :
    splitSign (number ++ (gap ++ ['%'])) = (number, 100) := by
  unfold splitSign
  rw [if_pos (by simp), ← List.append_assoc, List.dropLast_concat,
    Text.trimEnd_append h.trimmed.last hgap]

/-- What is split off is a percent sign with blanks in front of it, or nothing. -/
theorem exists_splitSign (s : List Char) : ∃ percent gap, (∀ c ∈ gap, Text.isBlank c = true)
    ∧ s = (splitSign s).1 ++ (gap ++ if percent = true then ['%'] else [])
    ∧ (splitSign s).2 = if percent = true then 100 else 1 := by
  unfold splitSign
  split_ifs with hlast
  · obtain ⟨gap, hgap, hs⟩ := Text.exists_trimEnd s.dropLast
    refine ⟨true, gap, hgap, ?_, rfl⟩
    obtain ⟨front, rfl⟩ := List.getLast?_eq_some_iff.mp hlast
    rw [List.dropLast_concat] at hs ⊢
    rw [if_pos rfl, ← List.append_assoc, ← hs]
  · exact ⟨false, [], by simp, by simp, rfl⟩

/-- Nothing but blanks stands around the number and its sign. -/
theorem splitSign_trim {x : Portion} (h : x.Spells s) : ∃ number,
    SpellsDecimal x.whole x.fraction number
      ∧ splitSign (Text.trim s) = (number, if x.percent = true then 100 else 1) := by
  obtain ⟨front, number, gap, back, hfront, hgap, hback, hspells, rfl⟩ := h
  refine ⟨number, hspells, ?_⟩
  unfold Portion.sign
  split_ifs
  · -- only the blanks behind the sign are at the end
    have hs : number ++ (gap ++ (['%'] ++ back)) = number ++ (gap ++ ['%']) ++ back := by simp
    rw [hs, Text.trim_append hfront hspells.trimmed_percent hback, splitSign_percent hspells hgap]
  · have hblank : ∀ c ∈ gap ++ ([] ++ back), Text.isBlank c = true :=
      fun c hc => (List.mem_append.mp hc).elim (hgap c) (hback c)
    rw [Text.trim_append hfront hspells.trimmed hblank, splitSign_number hspells]

/-- **A share is read exactly of a text that is written as one.** -/
theorem readShare_eq_some {result : Except FractionFault Binary64} :
    readShare s = some result ↔ ∃ x : Portion, x.Spells s ∧ result = .ok x.value := by
  rw [readShare_eq, readDecimal_eq_some]
  constructor
  · rintro ⟨whole, fraction, hspells, rfl⟩
    obtain ⟨front, back, hfront, hback, hs⟩ := Text.exists_trim s
    obtain ⟨percent, gap, hgap, htrim, hdivisor⟩ := exists_splitSign (Text.trim s)
    let x : Portion := ⟨whole, fraction, percent⟩
    refine ⟨x, ⟨front, _, gap, back, hfront, hgap, hback, hspells, ?_⟩, ?_⟩
    · nth_rewrite 1 [hs, htrim]
      simp [x, Portion.sign]
    · rw [x.value_eq, hdivisor]
      rfl
  · rintro ⟨x, h, rfl⟩
    obtain ⟨number, hspells, hsplit⟩ := splitSign_trim h
    rw [hsplit]
    exact ⟨_, _, hspells, congrArg _ x.value_eq⟩

/-! ## Two grammars -/

/-- No size is a share by itself: behind its number there is a unit. -/
theorem not_spells_of_parse {text : String} {size : ByteSize} (h : ByteSize.parse text = .ok size)
    (x : Portion) : ¬ x.Spells text.toList := by
  intro hx
  obtain ⟨y, hy, -⟩ := ByteSize.parse_eq_ok.mp h
  have hread := readShare_eq_some.mpr ⟨x, hx, rfl⟩
  rw [readShare_of_spells hy] at hread
  cases hread

/-- **A share is read by one of two grammars.** A text that is written as a decimal or a percentage
is read as that number, and no other text is. What is written otherwise is the share that a size is
of the capacity, if it is a size and the capacity is not empty. No text is written both ways, and no
number fails to be read. -/
theorem parseFraction_grammars (q : Quota) (text : String) :
    (∀ fraction, readShare text.toList = some (.ok fraction) ↔
        ∃ x : Portion, x.Spells text.toList ∧ fraction = x.value)
      ∧ (∀ x : Portion, x.Spells text.toList → q.parseFraction text = .ok x.value)
      ∧ ((∀ x : Portion, ¬ x.Spells text.toList) → q.parseFraction text
        = match ByteSize.parse text with
          | .ok size =>
            if 0 < q.capacity.bytes then .ok (size.ratio q.capacity)
            else .error (.unreadable text .emptyCapacity)
          | .error e => .error (.unreadable text (.size e.fault)))
      ∧ (∀ (x : Portion) (size : ByteSize),
        ¬ (x.Spells text.toList ∧ ByteSize.parse text = .ok size))
      ∧ (∀ fault, readShare text.toList ≠ some (.error fault))
      ∧ ∀ number, q.parseFraction text ≠ .error (.unreadable text (.badNumber number)) := by
  have hdecimal (fraction : Binary64) : readShare text.toList = some (.ok fraction) ↔
      ∃ x : Portion, x.Spells text.toList ∧ fraction = x.value := by
    simp only [readShare_eq_some, Except.ok.injEq]
  have hnumber (fault : FractionFault) : readShare text.toList ≠ some (.error fault) := by
    intro hread
    obtain ⟨x, -, hfault⟩ := readShare_eq_some.mp hread
    cases hfault
  have hsize (hnone : ∀ x : Portion, ¬ x.Spells text.toList) : readShare text.toList = none := by
    rw [Option.eq_none_iff_forall_ne_some]
    intro result hread
    obtain ⟨x, hx, -⟩ := readShare_eq_some.mp hread
    exact hnone x hx
  have hshare (x : Portion) (hx : x.Spells text.toList) : q.parseFraction text = .ok x.value :=
    parseFraction_eq_ok.mpr (.share ((hdecimal _).mpr ⟨x, hx, rfl⟩))
  have hother (hnone : ∀ x : Portion, ¬ x.Spells text.toList) : q.parseFraction text
      = match ByteSize.parse text with
        | .ok size =>
          if 0 < q.capacity.bytes then .ok (size.ratio q.capacity)
          else .error (.unreadable text .emptyCapacity)
        | .error e => .error (.unreadable text (.size e.fault)) := by
    unfold parseFraction
    rw [hsize hnone]
    dsimp only
    cases ByteSize.parse text with
    | error e => rfl
    | ok size =>
        dsimp only
        rcases lt_or_ge 0 q.capacity.bytes with hpos | hempty
        · rw [if_pos hpos, if_neg (not_le.mpr hpos)]
        · rw [if_neg (not_lt.mpr hempty), if_pos hempty]
  refine ⟨hdecimal, hshare, hother, fun x size h => not_spells_of_parse h.2 x h.1, hnumber,
    fun number => ?_⟩
  by_cases hspells : ∃ x : Portion, x.Spells text.toList
  · obtain ⟨x, hx⟩ := hspells
    rw [hshare x hx]
    simp
  · rw [hother (not_exists.mp hspells)]
    split
    · split_ifs <;> simp
    · simp

/-- A percentage with blanks around it, a size with and without a capacity, and a size with a
percent sign behind it, which is neither. -/
theorem parseFraction_grammars_texts :
    (full 0 (.clamp 4096) .one).parseFraction " 12.5 % " = .ok (.finite false (1 / 8))
      ∧ (full 0 (.clamp 4096) .one).parseFraction "1 KiB" = .ok (.finite false (1 / 4))
      ∧ (full 0 .zero .one).parseFraction "1 KiB" = .error (.unreadable "1 KiB" .emptyCapacity)
      ∧ (full 0 .zero .one).parseFraction "1 KiB %"
        = .error (.unreadable "1 KiB %" (.size .trailing)) := by
  let percentage : Portion := ⟨['1', '2'], ['5'], true⟩
  have hblank : ∀ c ∈ [' '], Text.isBlank c = true := List.all_eq_true.mp (by decide)
  have hnumber : SpellsDecimal ['1', '2'] ['5'] ['1', '2', '.', '5'] :=
    ⟨by decide, List.all_eq_true.mp (by decide), List.all_eq_true.mp (by decide), .pointed _ _⟩
  have hpercentage : percentage.Spells " 12.5 % ".toList :=
    ⟨[' '], _, [' '], [' '], hblank, hblank, hblank, hnumber, by decide⟩
  have hvalue : percentage.value = .finite false (1 / 8) := by decide +kernel
  have hkibibyte : ByteSize.parse "1 KiB" = .ok (.clamp 1024) := by decide +kernel
  have hratio : (ByteSize.clamp 1024).ratio (.clamp 4096) = .finite false (1 / 4) := by
    decide +kernel
  have htrailing : ByteSize.parse "1 KiB %" = .error ⟨"1 KiB %", .trailing⟩ := by decide +kernel
  have hneither (x : Portion) : ¬ x.Spells "1 KiB %".toList := by
    intro hx
    have hread := ((parseFraction_grammars (full 0 .zero .one) "1 KiB %").1 _).mpr ⟨x, hx, rfl⟩
    have hnone : readShare "1 KiB %".toList = none := by decide +kernel
    rw [hnone] at hread
    cases hread
  refine ⟨?_, ?_, ?_, ?_⟩
  · rw [(parseFraction_grammars _ _).2.1 percentage hpercentage, hvalue]
  · rw [(parseFraction_grammars _ _).2.2.1 (not_spells_of_parse hkibibyte), hkibibyte]
    dsimp only
    rw [if_pos (by decide)]
    exact congrArg _ hratio
  · rw [(parseFraction_grammars _ _).2.2.1 (not_spells_of_parse hkibibyte), hkibibyte]
    exact if_neg (by decide)
  · rw [(parseFraction_grammars _ _).2.2.1 hneither, htrailing]

end Quota

end PacedNet
