import PacedNet.ByteSize
import PacedNet.Proofs.Number.Digits
import PacedNet.Proofs.Text.Cutting

/-!
# How sizes are written

A size is written as a number and a unit. The number is a run of digits, with or without a point
and more digits behind it, and a minus sign may stand in front. The unit is a letter in any case, an
`i` if it is a power of 1024, and a `b`; a `b` alone is the byte. Blanks may stand at either end,
behind the sign and in front of the unit.

A text is read as a size exactly if it is written so, and then the size is the product of the number
and the unit, as floating-point arithmetic has it (`parse_eq_ok`). What the text means is the exact
product (`Quantity.value`), and the two need not be the same.
-/

namespace PacedNet

/-- The parts of a written size. -/
structure Quantity where
  negative : Bool
  whole : List Char
  /-- The digits behind the point, if there is one. -/
  fraction : List Char
  family : UnitFamily
  exponent : Nat

/-- A number as it is written, by its digits in front of the point and behind it. -/
inductive SpellsNumber : List Char → List Char → List Char → Prop where
  | whole (whole : List Char) : SpellsNumber whole [] whole
  | pointed (whole fraction : List Char) : SpellsNumber whole fraction (whole ++ '.' :: fraction)

/-- A minus sign with blanks behind it, or none. -/
inductive SpellsSign : Bool → List Char → Prop where
  | none : SpellsSign false []
  | minus {gap : List Char} (hgap : ∀ c ∈ gap, Text.isBlank c = true) : SpellsSign true ('-' :: gap)

/-- A unit as it is written. -/
inductive SpellsUnit : UnitFamily → Nat → List Char → Prop where
  | byte {b : Char} (hb : b = 'b' ∨ b = 'B') : SpellsUnit .decimal 0 [b]
  | decimal {i : Nat} {letter b : Char} (hletter : unitLetters[i]? = some letter.toUpper)
      (hb : b = 'b' ∨ b = 'B') : SpellsUnit .decimal (i + 1) [letter, b]
  | binary {i : Nat} {letter mark b : Char} (hletter : unitLetters[i]? = some letter.toUpper)
      (hmark : mark = 'i' ∨ mark = 'I') (hb : b = 'b' ∨ b = 'B') :
      SpellsUnit .binary (i + 1) [letter, mark, b]

namespace Quantity

/-- The number without its sign. -/
def number (x : Quantity) : Decimal := ⟨digitsValue (x.whole ++ x.fraction), -x.fraction.length⟩

/-- The number of bytes that the parts stand for. -/
def value (x : Quantity) : Rat :=
  Binary.signed x.negative (x.number.toRat * (x.family.base : Rat) ^ x.exponent)

/-- The parts without the sign and the blanks at either end. -/
structure SpellsBody (x : Quantity) (s : List Char) : Prop where
  nonempty : x.whole ≠ []
  digits : ∀ c ∈ x.whole, isDigit c = true
  fractionDigits : ∀ c ∈ x.fraction, isDigit c = true
  parts : ∃ number gap unit, SpellsNumber x.whole x.fraction number
    ∧ (∀ c ∈ gap, Text.isBlank c = true) ∧ SpellsUnit x.family x.exponent unit
    ∧ s = number ++ (gap ++ unit)

/-- The parts without the blanks at either end. -/
def SpellsCore (x : Quantity) (s : List Char) : Prop :=
  ∃ sign body, SpellsSign x.negative sign ∧ x.SpellsBody body ∧ s = sign ++ body

/-- A size as it is written. -/
def Spells (x : Quantity) (s : List Char) : Prop :=
  ∃ front core back, (∀ c ∈ front, Text.isBlank c = true) ∧ (∀ c ∈ back, Text.isBlank c = true)
    ∧ x.SpellsCore core ∧ s = front ++ (core ++ back)

/-- The size that the parts are read as. -/
def size (x : Quantity) : ByteSize :=
  let sign : Binary64 := if x.negative then .finite true 1 else .one
  .ofBinary ((sign.mul (.ofDecimal false x.number)).mul (ByteSize.unit x.family x.exponent))

end Quantity

/-! ## Steps that may fail -/

theorem bind_eq_ok {ε α β : Type} {x : Except ε α} {f : α → Except ε β} {b : β} :
    x.bind f = .ok b ↔ ∃ a, x = .ok a ∧ f a = .ok b := by
  cases x with
  | error e => simp [Except.bind]
  | ok a => simp [Except.bind]

theorem mapError_eq_ok {ε ε' α : Type} {x : Except ε α} {f : ε → ε'} {a : α} :
    x.mapError f = .ok a ↔ x = .ok a := by
  cases x with
  | error e => simp [Except.mapError]
  | ok b => simp [Except.mapError]

/-! ## Letters -/

theorem isAlpha_of_toUpper {c : Char} (h : c.toUpper.isAlpha = true) : c.isAlpha = true := by
  unfold Char.toUpper at h
  split at h
  next hlower =>
    have hislower : c.isLower = true :=
      (Bool.and_eq_true _ _).mpr ⟨decide_eq_true hlower.1, decide_eq_true hlower.2⟩
    exact (Bool.or_eq_true _ _).mpr (.inr hislower)
  next => exact h

/-- A letter is neither a blank nor a digit. -/
theorem isBlank_of_isAlpha {c : Char} (h : c.isAlpha = true) :
    Text.isBlank c = false ∧ isDigit c = false := by
  have hc : 65 ≤ c.toNat ∧ c.toNat ≤ 90 ∨ 97 ≤ c.toNat ∧ c.toNat ≤ 122 := by
    have hletter : (decide (c.val ≥ 'A'.val ∧ c.val ≤ 'Z'.val)
        || (decide (c.val ≥ 'a'.val) && decide (c.val ≤ 'z'.val))) = true := h
    simpa [UInt32.le_iff_toNat_le] using hletter
  constructor
  · unfold Text.isBlank Text.inRanges Text.blankRanges
    simp
    omega
  · unfold isDigit
    simp [Char.le_def, UInt32.le_iff_toNat_le]
    omega

/-! ## Units -/

variable {s rest number : List Char} {family : UnitFamily} {e i : Nat}

theorem letter_of_getElem? {letter : Char} (h : unitLetters[i]? = some letter) :
    letter ≠ 'B' ∧ letter.isAlpha = true ∧ unitLetters.idxOf? letter = some i := by
  have hi : i < unitLetters.length := (List.getElem?_eq_some_iff.mp h).1
  have hall : ∀ i < unitLetters.length, unitLetters.getD i ' ' ≠ 'B'
      ∧ (unitLetters.getD i ' ').isAlpha = true
      ∧ unitLetters.idxOf? (unitLetters.getD i ' ') = some i := by decide
  have hletter : unitLetters.getD i ' ' = letter := by rw [List.getD_eq_getElem?_getD, h]; rfl
  exact hletter ▸ hall i hi

/-- A unit starts with a letter and ends with one. -/
theorem SpellsUnit.ends (h : SpellsUnit family e s) :
    ∃ first last, s.head? = some first ∧ first.isAlpha = true
      ∧ s.getLast? = some last ∧ last.isAlpha = true := by
  have halpha : ∀ {b : Char}, b = 'b' ∨ b = 'B' → b.isAlpha = true := by
    rintro b (rfl | rfl) <;> decide
  have hletter : ∀ {i letter}, unitLetters[i]? = some (Char.toUpper letter) →
      letter.isAlpha = true := fun h => isAlpha_of_toUpper (letter_of_getElem? h).2.1
  cases h with
  | byte hb => exact ⟨_, _, rfl, halpha hb, rfl, halpha hb⟩
  | decimal h hb => exact ⟨_, _, rfl, hletter h, rfl, halpha hb⟩
  | binary h hmark hb => exact ⟨_, _, rfl, hletter h, rfl, halpha hb⟩

namespace ByteSize

variable {factor : Binary64} {size : ByteSize} {text : String}

theorem readLetter_letter {letter : Char} (h : unitLetters[i]? = some letter.toUpper) :
    readLetter (letter :: rest) = .ok (i + 1, rest) := by
  obtain ⟨hne, halpha, hindex⟩ := letter_of_getElem? h
  unfold readLetter
  dsimp only
  rw [if_pos ⟨hne, halpha⟩, hindex]

/-- What is read in front of a unit is a letter that names it, or nothing: then what stands first is
a `b`, or no letter. -/
theorem readLetter_eq_ok (h : readLetter s = .ok (e, rest)) :
    (∃ i letter, s = letter :: rest ∧ e = i + 1 ∧ unitLetters[i]? = some letter.toUpper)
      ∨ (e = 0 ∧ rest = s
        ∧ ∀ c, s.head? = some c → c.toUpper = 'B' ∨ c.toUpper.isAlpha = false) := by
  cases s with
  | nil =>
      obtain ⟨rfl, rfl⟩ := Prod.mk.inj (Except.ok.inj h)
      exact Or.inr ⟨rfl, rfl, by simp⟩
  | cons c r =>
      unfold readLetter at h
      dsimp only at h
      by_cases hletter : c.toUpper ≠ 'B' ∧ c.toUpper.isAlpha
      · rw [if_pos hletter] at h
        split at h
        next i hi =>
          obtain ⟨rfl, rfl⟩ := Prod.mk.inj (Except.ok.inj h)
          obtain ⟨hlt, heq, -⟩ := List.idxOf?_eq_some_iff.mp hi
          exact Or.inl ⟨i, c, rfl, rfl, List.getElem?_eq_some_iff.mpr ⟨hlt, heq⟩⟩
        next => cases h
      · rw [if_neg hletter] at h
        obtain ⟨rfl, rfl⟩ := Prod.mk.inj (Except.ok.inj h)
        refine Or.inr ⟨rfl, rfl, fun d hd => ?_⟩
        obtain rfl : c = d := Option.some.inj hd
        by_cases hb : c.toUpper = 'B'
        · exact Or.inl hb
        · exact Or.inr (by simpa [hb] using hletter)

theorem readLetter_end {b : Char} (h : b = 'b' ∨ b = 'B') : readLetter [b] = .ok (0, [b]) := by
  rcases h with rfl | rfl <;> rfl

/-- The family, by whether an `i` stands behind the letter. -/
def readMark (s : List Char) : UnitFamily × List Char :=
  match s with
  | c :: r => if c = 'i' ∨ c = 'I' then (.binary, r) else (.decimal, s)
  | [] => (.decimal, [])

/-- The `b` that ends a unit. -/
def readEnd (factor : Binary64) (s : List Char) : Except SizeFault Binary64 :=
  match s with
  | c :: r =>
    if c = 'b' ∨ c = 'B' then
      if r.isEmpty then .ok factor else .error .trailing
    else .error .missingUnit
  | [] => .error .missingUnit

theorem readUnit_eq (s : List Char) : readUnit s = (readLetter s).bind fun p =>
    readEnd (unit (readMark p.2).1 p.1) (readMark p.2).2 := by
  unfold readUnit readEnd readMark
  rfl

theorem readEnd_eq_ok {limit : Binary64} :
    readEnd limit s = .ok factor ↔ (∃ b, (b = 'b' ∨ b = 'B') ∧ s = [b]) ∧ factor = limit := by
  constructor
  · intro h
    unfold readEnd at h
    split at h
    next c r =>
      split_ifs at h with hb hr
      obtain rfl := List.isEmpty_iff.mp hr
      exact ⟨⟨c, hb, rfl⟩, (Except.ok.inj h).symm⟩
    next => cases h
  · rintro ⟨⟨b, hb, rfl⟩, rfl⟩
    exact if_pos hb

theorem readMark_mark {mark : Char} (h : mark = 'i' ∨ mark = 'I') :
    readMark (mark :: rest) = (.binary, rest) := if_pos h

theorem readMark_end {b : Char} (h : b = 'b' ∨ b = 'B') : readMark [b] = (.decimal, [b]) := by
  rcases h with rfl | rfl <;> rfl

theorem readMark_cases (s : List Char) :
    (∃ mark, (mark = 'i' ∨ mark = 'I') ∧ s = mark :: (readMark s).2 ∧ (readMark s).1 = .binary)
      ∨ readMark s = (.decimal, s) := by
  unfold readMark
  split
  next c r =>
    by_cases hmark : c = 'i' ∨ c = 'I'
    · exact Or.inl ⟨c, hmark, by rw [if_pos hmark], by rw [if_pos hmark]⟩
    · exact Or.inr (if_neg hmark)
  next => exact Or.inr rfl

/-- **A unit is read exactly if it is written as one.** -/
theorem readUnit_eq_ok :
    readUnit s = .ok factor ↔ ∃ family e, SpellsUnit family e s ∧ factor = unit family e := by
  rw [readUnit_eq]
  constructor
  · intro h
    obtain ⟨⟨e, rest⟩, hletter, h⟩ := bind_eq_ok.mp h
    obtain ⟨⟨b, hb, hrest⟩, rfl⟩ := readEnd_eq_ok.mp h
    rcases readLetter_eq_ok hletter with ⟨i, letter, rfl, rfl, hi⟩ | ⟨rfl, rfl, hnone⟩
    · rcases readMark_cases rest with ⟨mark, hmark, heq, hfamily⟩ | heq
      · rw [hrest] at heq
        rw [hfamily, heq]
        exact ⟨.binary, i + 1, .binary hi hmark hb, rfl⟩
      · obtain rfl : rest = [b] := by rwa [heq] at hrest
        rw [heq]
        exact ⟨.decimal, i + 1, .decimal hi hb, rfl⟩
    · rcases readMark_cases rest with ⟨mark, hmark, heq, -⟩ | heq
      · -- an `i` is a letter, and it names no unit
        rw [heq] at hnone
        rcases hmark with rfl | rfl <;> exact absurd (hnone _ rfl) (by decide)
      · obtain rfl : rest = [b] := by rwa [heq] at hrest
        rw [heq]
        exact ⟨.decimal, 0, .byte hb, rfl⟩
  · rintro ⟨family, e, hunit, rfl⟩
    cases hunit with
    | byte hb =>
        refine bind_eq_ok.mpr ⟨(0, _), readLetter_end hb, ?_⟩
        rw [readMark_end hb]
        exact readEnd_eq_ok.mpr ⟨⟨_, hb, rfl⟩, rfl⟩
    | decimal hletter hb =>
        refine bind_eq_ok.mpr ⟨_, readLetter_letter hletter, ?_⟩
        rw [readMark_end hb]
        exact readEnd_eq_ok.mpr ⟨⟨_, hb, rfl⟩, rfl⟩
    | binary hletter hmark hb =>
        refine bind_eq_ok.mpr ⟨_, readLetter_letter hletter, ?_⟩
        rw [readMark_mark hmark]
        exact readEnd_eq_ok.mpr ⟨⟨_, hb, rfl⟩, rfl⟩

/-! ## Numbers -/

variable {whole fraction : List Char}

/-- Where a number ends: no digit may follow, nor a point. -/
def EndsNumber (rest : List Char) : Prop := ∀ c, rest.head? = some c → isDigit c = false ∧ c ≠ '.'

/-- A point is no digit. -/
theorem point_stops (s : List Char) : ∀ c, ('.' :: s).head? = some c → isDigit c = false := by
  intro c hc
  obtain rfl := Option.some.inj hc
  decide

theorem splitNumber_append (hspells : SpellsNumber whole fraction number)
    (hwhole : ∀ c ∈ whole, isDigit c = true) (hfraction : ∀ c ∈ fraction, isDigit c = true)
    (hrest : EndsNumber rest) : splitNumber (number ++ rest) = (number, rest) := by
  have hstop : ∀ c, rest.head? = some c → isDigit c = false := fun c hc => (hrest c hc).1
  unfold splitNumber
  cases hspells with
  | whole =>
      obtain ⟨htake, hdrop⟩ := Text.takeWhile_run hwhole hstop
      dsimp only
      rw [htake, hdrop]
      split
      next r => exact absurd rfl (hrest _ rfl).2
      next => rfl
  | pointed =>
      obtain ⟨htake, hdrop⟩ := Text.takeWhile_run hwhole (point_stops (fraction ++ rest))
      obtain ⟨htake', hdrop'⟩ := Text.takeWhile_run hfraction hstop
      rw [List.append_assoc, List.cons_append]
      dsimp only
      rw [htake, hdrop]
      show (whole ++ '.' :: (fraction ++ rest).takeWhile isDigit,
        (fraction ++ rest).dropWhile isDigit) = _
      rw [htake', hdrop']

/-- What is split off is a number, whose first run of digits is the text's. -/
theorem splitNumber_spells (s : List Char) : ∃ fraction, (∀ c ∈ fraction, isDigit c = true)
    ∧ SpellsNumber (s.takeWhile isDigit) fraction (splitNumber s).1
    ∧ s = (splitNumber s).1 ++ (splitNumber s).2 := by
  unfold splitNumber
  dsimp only
  split
  next r hr =>
    refine ⟨r.takeWhile isDigit, fun _ hc => List.mem_takeWhile_imp hc, .pointed _ _, ?_⟩
    rw [List.append_assoc, List.cons_append, List.takeWhile_append_dropWhile, ← hr,
      List.takeWhile_append_dropWhile]
  next => exact ⟨[], by simp, .whole _, (List.takeWhile_append_dropWhile).symm⟩

theorem readMantissa?_spells (hspells : SpellsNumber whole fraction number) (hne : whole ≠ [])
    (hwhole : ∀ c ∈ whole, isDigit c = true) (hfraction : ∀ c ∈ fraction, isDigit c = true) :
    readMantissa? number = some (⟨digitsValue (whole ++ fraction), -fraction.length⟩, []) := by
  have hnone : ∀ c, ([] : List Char).head? = some c → isDigit c = false := by simp
  have hempty : whole.isEmpty = false := by simpa using hne
  unfold readMantissa?
  cases hspells with
  | whole =>
      obtain ⟨htake, hdrop⟩ := Text.takeWhile_run hwhole hnone
      rw [List.append_nil] at htake hdrop
      dsimp only
      rw [htake, hdrop]
      simp [hempty]
  | pointed =>
      obtain ⟨htake, hdrop⟩ := Text.takeWhile_run hwhole (point_stops fraction)
      obtain ⟨htake', hdrop'⟩ := Text.takeWhile_run hfraction hnone
      rw [List.append_nil] at htake' hdrop'
      dsimp only
      rw [htake, hdrop]
      simp [htake', hdrop', hempty]

theorem head?_spells (hspells : SpellsNumber whole fraction number) (hne : whole ≠ []) :
    number.head? = whole.head? := by
  cases hspells with
  | whole => rfl
  | pointed => exact List.head?_append_of_ne_nil _ hne

/-- **A number that is written as one is read**, and read as that number, rounded. -/
theorem read?_spells (hspells : SpellsNumber whole fraction number) (hne : whole ≠ [])
    (hwhole : ∀ c ∈ whole, isDigit c = true) (hfraction : ∀ c ∈ fraction, isDigit c = true) :
    (Binary.read? number : Option Binary64)
      = some (.ofDecimal false ⟨digitsValue (whole ++ fraction), -fraction.length⟩) := by
  have hhead : ∀ c, number.head? = some c → isDigit c = true := by
    intro c hc
    rw [head?_spells hspells hne] at hc
    exact hwhole c (List.mem_of_head? hc)
  have hdecimal : readDecimal? number
      = some ⟨digitsValue (whole ++ fraction), -fraction.length⟩ := by
    unfold readDecimal?
    rw [readMantissa?_spells hspells hne hwhole hfraction]
    rfl
  unfold Binary.read?
  dsimp only
  -- a number that starts with a digit starts with no sign
  split
  next => exact absurd (hhead _ rfl) (by decide)
  next => exact absurd (hhead _ rfl) (by decide)
  next => rw [hdecimal]

/-! ## Sizes -/

/-- What stands behind the sign of a size. -/
def readBody (negative : Bool) (body : List Char) : Except SizeFault ByteSize := do
  if (body.takeWhile isDigit).isEmpty then .error .noNumber
  else
    let (number, rest) := splitNumber body
    match (Binary.read? number : Option Binary64) with
    | none => .error .badNumber
    | some value =>
      let factor ← readUnit (Text.trimStart rest)
      let sign : Binary64 := if negative then .finite true 1 else .one
      .ok (ofBinary ((sign.mul value).mul factor))

/-- Whether a minus sign stands first, and what stands behind it. -/
def readSign (s : List Char) : Bool × List Char :=
  match s with
  | '-' :: r => (true, Text.trimStart r)
  | _ => (false, s)

theorem read_eq (s : List Char) : read s = readBody (readSign s).1 (readSign s).2 := by
  unfold read readBody readSign
  rfl

theorem readSign_spells (s : List Char) :
    ∃ sign, SpellsSign (readSign s).1 sign ∧ s = sign ++ (readSign s).2 := by
  unfold readSign
  split
  next r =>
    obtain ⟨gap, hgap, hr⟩ := Text.exists_trimStart r
    exact ⟨_, .minus hgap, congrArg ('-' :: ·) hr⟩
  next => exact ⟨[], .none, rfl⟩

/-- A digit is no part of a sign. -/
theorem readSign_append {negative : Bool} {sign : List Char} (hsign : SpellsSign negative sign)
    (hs : ∃ c, s.head? = some c ∧ isDigit c = true) : readSign (sign ++ s) = (negative, s) := by
  obtain ⟨c, hc, hdigit⟩ := hs
  cases hsign with
  | none =>
      unfold readSign
      split
      next r heq =>
        rw [List.nil_append] at heq
        rw [heq] at hc
        obtain rfl := Option.some.inj hc
        exact absurd hdigit (by decide)
      next => rfl
  | minus hgap =>
      have hstart : ∀ d, s.head? = some d → Text.isBlank d = false := by
        intro d hd
        obtain rfl := Option.some.inj (hc.symm.trans hd)
        exact isBlank_of_isDigit hdigit
      exact congrArg (true, ·) (Text.takeWhile_run hgap hstart).2

end ByteSize

theorem Quantity.SpellsBody.head {x : Quantity} (h : x.SpellsBody s) :
    ∃ c, s.head? = some c ∧ isDigit c = true := by
  obtain ⟨number, gap, unit, hspells, -, -, rfl⟩ := h.parts
  obtain ⟨c, more, hwhole⟩ := List.exists_cons_of_ne_nil h.nonempty
  have hhead : number.head? = some c := by
    rw [ByteSize.head?_spells hspells h.nonempty, hwhole, List.head?_cons]
  exact ⟨c, by rw [List.head?_append, hhead]; rfl, h.digits c (hwhole ▸ List.mem_cons_self)⟩

theorem Quantity.SpellsBody.spells {x : Quantity} {sign : List Char} (h : x.SpellsBody s)
    (hsign : SpellsSign x.negative sign) : x.Spells (sign ++ s) :=
  ⟨[], sign ++ s, [], by simp, by simp, ⟨sign, s, hsign, h, rfl⟩, (List.append_nil _).symm⟩

/-- A size ends in a letter. -/
theorem Quantity.SpellsCore.last {x : Quantity} (h : x.SpellsCore s) :
    ∃ c, s.getLast? = some c ∧ c.isAlpha = true := by
  obtain ⟨sign, body, -, hbody, rfl⟩ := h
  obtain ⟨number, gap, unit, -, -, hunit, rfl⟩ := hbody.parts
  obtain ⟨-, last, -, -, hlast, halpha⟩ := hunit.ends
  exact ⟨last, by simp [List.getLast?_append, hlast], halpha⟩

/-- Nothing is left to trim. -/
theorem Quantity.SpellsCore.trimmed {x : Quantity} (h : x.SpellsCore s) : Text.Trimmed s := by
  obtain ⟨last, hlast, halpha⟩ := h.last
  obtain ⟨sign, body, hsign, hbody, rfl⟩ := h
  obtain ⟨first, hfirst, hdigit⟩ := hbody.head
  refine ⟨fun c hc => ?_, fun c hc => ?_⟩
  · generalize x.negative = negative at hsign
    cases hsign with
    | none =>
        obtain rfl := Option.some.inj (hfirst.symm.trans hc)
        exact isBlank_of_isDigit hdigit
    | minus hgap =>
        obtain rfl := Option.some.inj hc
        decide
  · obtain rfl := Option.some.inj (hlast.symm.trans hc)
    exact (isBlank_of_isAlpha halpha).1

namespace ByteSize

/-- Neither a blank nor a letter goes on with a number. -/
theorem endsNumber_append {first : Char} (hgap : ∀ c ∈ rest, Text.isBlank c = true)
    (hfirst : s.head? = some first) (halpha : first.isAlpha = true) : EndsNumber (rest ++ s) := by
  intro c hc
  cases rest with
  | nil =>
      obtain rfl : first = c := Option.some.inj (hfirst.symm.trans hc)
      refine ⟨(isBlank_of_isAlpha halpha).2, ?_⟩
      rintro rfl
      exact absurd halpha (by decide)
  | cons b rest =>
      obtain rfl : b = c := Option.some.inj hc
      have hb := hgap b List.mem_cons_self
      refine ⟨Bool.eq_false_iff.mpr fun hdigit => ?_, ?_⟩
      · rw [isBlank_of_isDigit hdigit] at hb
        exact absurd hb (by decide)
      · rintro rfl
        exact absurd hb (by decide)

/-- A letter is no blank. -/
theorem trimStart_append {first : Char} (hgap : ∀ c ∈ rest, Text.isBlank c = true)
    (hfirst : s.head? = some first) (halpha : first.isAlpha = true) :
    Text.trimStart (rest ++ s) = s := by
  refine (Text.takeWhile_run hgap fun c hc => ?_).2
  obtain rfl : first = c := Option.some.inj (hfirst.symm.trans hc)
  exact (isBlank_of_isAlpha halpha).1

variable {negative : Bool}

theorem readBody_no_number (h : s.takeWhile isDigit = []) :
    readBody negative s = .error .noNumber :=
  if_pos (List.isEmpty_iff.mpr h)

/-- Behind a number only the unit may be wrong. -/
theorem readBody_number {value : Binary64} (hne : s.takeWhile isDigit ≠ [])
    (hvalue : Binary.read? (splitNumber s).1 = some value) :
    readBody negative s = (readUnit (Text.trimStart (splitNumber s).2)).bind fun factor =>
      let sign : Binary64 := if negative then .finite true 1 else .one
      .ok (ofBinary ((sign.mul value).mul factor)) := by
  unfold readBody
  rw [if_neg (by simpa using hne)]
  dsimp only
  rw [hvalue]
  rfl

/-- A digit in front makes a number of what is split off. -/
theorem read?_splitNumber (hne : s.takeWhile isDigit ≠ []) : ∃ fraction,
    (∀ c ∈ fraction, isDigit c = true)
      ∧ SpellsNumber (s.takeWhile isDigit) fraction (splitNumber s).1
      ∧ s = (splitNumber s).1 ++ (splitNumber s).2
      ∧ (Binary.read? (splitNumber s).1 : Option Binary64) = some (.ofDecimal false
          ⟨digitsValue (s.takeWhile isDigit ++ fraction), -fraction.length⟩) := by
  obtain ⟨fraction, hfraction, hspells, heq⟩ := splitNumber_spells s
  exact ⟨fraction, hfraction, hspells, heq,
    read?_spells hspells hne (fun _ hc => List.mem_takeWhile_imp hc) hfraction⟩

/-- A number with a unit behind it, or something else that starts with a letter. -/
theorem readBody_append {gap : List Char} {first : Char}
    (hspells : SpellsNumber whole fraction number) (hne : whole ≠ [])
    (hwhole : ∀ c ∈ whole, isDigit c = true) (hfraction : ∀ c ∈ fraction, isDigit c = true)
    (hgap : ∀ c ∈ gap, Text.isBlank c = true) (hfirst : s.head? = some first)
    (halpha : first.isAlpha = true) :
    readBody negative (number ++ (gap ++ s)) = (readUnit s).bind fun factor =>
      let sign : Binary64 := if negative then .finite true 1 else .one
      let value := .ofDecimal false ⟨digitsValue (whole ++ fraction), -fraction.length⟩
      .ok (ofBinary ((sign.mul value).mul factor)) := by
  have hsplit := splitNumber_append hspells hwhole hfraction (endsNumber_append hgap hfirst halpha)
  have hdigits : (number ++ (gap ++ s)).takeWhile isDigit ≠ [] := by
    obtain ⟨c, more, hcons⟩ := List.exists_cons_of_ne_nil hne
    have hhead : number.head? = some c := by rw [head?_spells hspells hne, hcons, List.head?_cons]
    obtain ⟨tail, rfl⟩ := List.head?_eq_some_iff.mp hhead
    have hdigit : isDigit c = true := hwhole c (hcons ▸ List.mem_cons_self)
    simp [hdigit]
  rw [readBody_number hdigits (by rw [hsplit]; exact read?_spells hspells hne hwhole hfraction),
    hsplit]
  dsimp only
  rw [trimStart_append hgap hfirst halpha]

theorem readBody_eq_ok : readBody negative s = .ok size ↔
    ∃ x : Quantity, x.negative = negative ∧ x.SpellsBody s ∧ size = x.size := by
  constructor
  · intro h
    by_cases hne : s.takeWhile isDigit = []
    · rw [readBody_no_number hne] at h
      cases h
    · obtain ⟨fraction, hfraction, hspells, heq, hvalue⟩ := read?_splitNumber hne
      rw [readBody_number hne hvalue] at h
      obtain ⟨factor, hfactor, h⟩ := bind_eq_ok.mp h
      obtain ⟨family, e, hunit, rfl⟩ := readUnit_eq_ok.mp hfactor
      obtain ⟨gap, hgap, hrest⟩ := Text.exists_trimStart (splitNumber s).2
      refine ⟨⟨negative, _, fraction, family, e⟩, rfl,
        ⟨hne, fun _ hc => List.mem_takeWhile_imp hc, hfraction, ?_⟩, (Except.ok.inj h).symm⟩
      exact ⟨_, gap, _, hspells, hgap, hunit, hrest ▸ heq⟩
  · rintro ⟨x, rfl, hx, rfl⟩
    obtain ⟨number, gap, unit, hspells, hgap, hunit, rfl⟩ := hx.parts
    obtain ⟨first, -, hfirst, halpha, -, -⟩ := hunit.ends
    rw [readBody_append hspells hx.nonempty hx.digits hx.fractionDigits hgap hfirst halpha]
    exact bind_eq_ok.mpr ⟨_, readUnit_eq_ok.mpr ⟨_, _, hunit, rfl⟩, rfl⟩

theorem read_eq_ok : read s = .ok size ↔ ∃ x : Quantity, x.SpellsCore s ∧ size = x.size := by
  rw [read_eq, readBody_eq_ok]
  constructor
  · rintro ⟨x, hsign, hbody, rfl⟩
    obtain ⟨sign, hspells, heq⟩ := readSign_spells s
    exact ⟨x, ⟨sign, _, hsign ▸ hspells, hbody, heq⟩, rfl⟩
  · rintro ⟨x, ⟨sign, body, hsign, hbody, rfl⟩, rfl⟩
    rw [readSign_append hsign hbody.head]
    exact ⟨x, rfl, hbody, rfl⟩

/-- **A text is read as a size exactly if it is written as one.** -/
theorem parse_eq_ok :
    parse text = .ok size ↔ ∃ x : Quantity, x.Spells text.toList ∧ size = x.size := by
  unfold parse
  rw [mapError_eq_ok, read_eq_ok]
  constructor
  · rintro ⟨x, hx, rfl⟩
    obtain ⟨front, back, hfront, hback, heq⟩ := Text.exists_trim text.toList
    exact ⟨x, ⟨front, _, back, hfront, hback, hx, heq⟩, rfl⟩
  · rintro ⟨x, ⟨front, core, back, hfront, hback, hx, heq⟩, rfl⟩
    refine ⟨x, ?_, rfl⟩
    rw [heq, Text.trim_append hfront hx.trimmed hback]
    exact hx

end ByteSize

end PacedNet
