import PacedNet.Proofs.Size.Spelling
import PacedNet.Proofs.Text.Encoding

/-!
# Which texts are sizes

The documented form of a size is an optional minus sign with blanks behind it, digits, an optional
point with digits behind it, blanks, an optional letter, an optional `i` and a `b`, all letters in
any case (`SizeForm`). Every text that is read has that form. The converse holds but for one case: an
`i` without a letter in front of it is taken for a letter, and names no unit (`read_lone`). Whatever
a text has besides, its number is a number.

Digits are counted octet by octet, and the text is cut there. A digit is an octet of its own, and no
other character has one, so a cut is never inside of a character (`isValid_of_mem_cuts`).
-/

namespace PacedNet

/-! ## The documented form -/

/-- An optional letter, an optional `i` and a `b`. -/
structure UnitForm (letter mark : Option Char) (last : Char) : Prop where
  letter : ∀ c ∈ letter, c.toUpper ∈ unitLetters
  mark : ∀ c ∈ mark, c.toUpper = 'I'
  last : last.toUpper = 'B'

/-- The parts of a text of the documented form. -/
structure SizeForm where
  sign : List Char
  whole : List Char
  /-- The point and what stands behind it, or nothing. -/
  fraction : List Char
  gap : List Char
  letter : Option Char
  mark : Option Char
  last : Char
  sign_form : sign = [] ∨ ∃ blanks, (∀ c ∈ blanks, Text.isBlank c = true) ∧ sign = '-' :: blanks
  whole_nonempty : whole ≠ []
  whole_digits : ∀ c ∈ whole, isDigit c = true
  fraction_form : fraction = []
    ∨ ∃ digits, (∀ c ∈ digits, isDigit c = true) ∧ fraction = '.' :: digits
  gap_blank : ∀ c ∈ gap, Text.isBlank c = true
  unit_form : UnitForm letter mark last

namespace SizeForm

/-- The letters at the end. -/
def unit (x : SizeForm) : List Char := x.letter.toList ++ (x.mark.toList ++ [x.last])

def text (x : SizeForm) : List Char := x.sign ++ ((x.whole ++ x.fraction) ++ (x.gap ++ x.unit))

/-- There is an `i`, and no letter in front of it. -/
def IsLone (x : SizeForm) : Prop := x.letter = none ∧ x.mark ≠ none

end SizeForm

/-! ## Letters in any case -/

/-- What is a letter in upper case is that letter or the one below it in lower case. -/
theorem eq_of_toUpper {c lower upper : Char} (hbelow : lower.val = upper.val - ('A'.val - 'a'.val))
    (h : c.toUpper = upper) : c = lower ∨ c = upper := by
  unfold Char.toUpper at h
  split at h
  next hlower =>
    subst h
    refine .inl (Char.ext ?_)
    rw [hbelow]
    exact (UInt32.add_sub_cancel _ _).symm
  next => exact .inr h

theorem toUpper_eq_mark {c : Char} : c.toUpper = 'I' ↔ c = 'i' ∨ c = 'I' := by
  constructor
  · exact eq_of_toUpper (by decide)
  · rintro (rfl | rfl) <;> rfl

theorem toUpper_eq_last {c : Char} : c.toUpper = 'B' ↔ c = 'b' ∨ c = 'B' := by
  constructor
  · exact eq_of_toUpper (by decide)
  · rintro (rfl | rfl) <;> rfl

/-! ## The two grammars -/

variable {s sign number unit : List Char}

theorem exists_spellsSign : (∃ negative, SpellsSign negative sign)
    ↔ sign = [] ∨ ∃ blanks, (∀ c ∈ blanks, Text.isBlank c = true) ∧ sign = '-' :: blanks := by
  constructor
  · rintro ⟨_, hsign⟩
    cases hsign with
    | none => exact .inl rfl
    | minus hgap => exact .inr ⟨_, hgap, rfl⟩
  · rintro (rfl | ⟨blanks, hblanks, rfl⟩)
    · exact ⟨false, .none⟩
    · exact ⟨true, .minus hblanks⟩

theorem exists_spellsNumber {whole : List Char} :
    (∃ digits, (∀ c ∈ digits, isDigit c = true) ∧ SpellsNumber whole digits number)
      ↔ ∃ fraction, (fraction = []
          ∨ ∃ digits, (∀ c ∈ digits, isDigit c = true) ∧ fraction = '.' :: digits)
        ∧ number = whole ++ fraction := by
  constructor
  · rintro ⟨digits, hdigits, hspells⟩
    cases hspells with
    | whole => exact ⟨[], .inl rfl, (List.append_nil _).symm⟩
    | pointed => exact ⟨_, .inr ⟨digits, hdigits, rfl⟩, rfl⟩
  · rintro ⟨_, rfl | ⟨digits, hdigits, rfl⟩, rfl⟩
    · exact ⟨[], by simp, by rw [List.append_nil]; exact .whole whole⟩
    · exact ⟨digits, hdigits, .pointed whole digits⟩

/-- A unit that is read is one of the documented form, but for a lone `i`. -/
theorem exists_spellsUnit : (∃ family e, SpellsUnit family e unit)
    ↔ ∃ letter mark last, UnitForm letter mark last ∧ ¬ (letter = none ∧ mark ≠ none)
      ∧ unit = letter.toList ++ (mark.toList ++ [last]) := by
  have hmem : ∀ {i : Nat} {letter : Char}, unitLetters[i]? = some letter.toUpper →
      ∀ c ∈ some letter, c.toUpper ∈ unitLetters := by
    intro i letter hletter c hc
    obtain rfl := Option.some.inj hc
    exact List.mem_of_getElem? hletter
  constructor
  · rintro ⟨_, _, hunit⟩
    cases hunit with
    | @byte b hb =>
        exact ⟨none, none, b, ⟨by simp, by simp, toUpper_eq_last.mpr hb⟩, by simp, rfl⟩
    | @decimal i letter b hletter hb =>
        exact ⟨some letter, none, b, ⟨hmem hletter, by simp, toUpper_eq_last.mpr hb⟩, by simp, rfl⟩
    | @binary i letter mark b hletter hmark hb =>
        refine ⟨some letter, some mark, b, ⟨hmem hletter, fun c hc => ?_, toUpper_eq_last.mpr hb⟩,
          by simp, rfl⟩
        obtain rfl := Option.some.inj hc
        exact toUpper_eq_mark.mpr hmark
  · rintro ⟨letter, mark, last, hform, hlone, rfl⟩
    have hlast := toUpper_eq_last.mp hform.last
    cases letter with
    | none =>
        cases mark with
        | none => exact ⟨_, _, .byte hlast⟩
        | some i => exact absurd ⟨rfl, by simp⟩ hlone
    | some letter =>
        obtain ⟨i, hletter⟩ := List.getElem?_of_mem (hform.letter letter rfl)
        cases mark with
        | none => exact ⟨_, _, .decimal hletter hlast⟩
        | some mark =>
            exact ⟨_, _, .binary hletter (toUpper_eq_mark.mp (hform.mark mark rfl)) hlast⟩

/-- The parts of a size that is read are those of the documented form, but for a lone `i`. -/
theorem exists_spellsCore :
    (∃ x : Quantity, x.SpellsCore s) ↔ ∃ x : SizeForm, x.text = s ∧ ¬ x.IsLone := by
  constructor
  · rintro ⟨x, sign, body, hsign, hbody, rfl⟩
    obtain ⟨number, gap, unit, hnumber, hgap, hunit, rfl⟩ := hbody.parts
    obtain ⟨fraction, hfraction, rfl⟩ := exists_spellsNumber.mp ⟨_, hbody.fractionDigits, hnumber⟩
    obtain ⟨letter, mark, last, hform, hlone, rfl⟩ := exists_spellsUnit.mp ⟨_, _, hunit⟩
    exact ⟨⟨sign, x.whole, fraction, gap, letter, mark, last, exists_spellsSign.mp ⟨_, hsign⟩,
      hbody.nonempty, hbody.digits, hfraction, hgap, hform⟩, rfl, hlone⟩
  · rintro ⟨x, rfl, hlone⟩
    obtain ⟨negative, hsign⟩ := exists_spellsSign.mpr x.sign_form
    obtain ⟨digits, hdigits, hnumber⟩ := exists_spellsNumber.mpr ⟨_, x.fraction_form, rfl⟩
    obtain ⟨family, e, hunit⟩ := exists_spellsUnit.mpr ⟨_, _, _, x.unit_form, hlone, rfl⟩
    exact ⟨⟨negative, x.whole, digits, family, e⟩, x.sign, _, hsign,
      ⟨x.whole_nonempty, x.whole_digits, hdigits, _, x.gap, _, hnumber, x.gap_blank, hunit, rfl⟩,
      rfl⟩

namespace ByteSize

variable {text : String}

/-- An `i` without a letter in front of it is taken for one, which names no unit. -/
theorem readUnit_mark {mark : Char} {rest : List Char} (hmark : mark.toUpper = 'I') :
    readUnit (mark :: rest) = .error .unknownLetter := by
  have hletter : readLetter (mark :: rest) = .error .unknownLetter := by
    unfold readLetter
    dsimp only
    rw [hmark]
    rfl
  rw [readUnit_eq, hletter]
  rfl

/-- **A lone `i` is refused.** -/
theorem read_lone (x : SizeForm) (hlone : x.IsLone) : read x.text = .error .unknownLetter := by
  obtain ⟨negative, hsign⟩ := exists_spellsSign.mpr x.sign_form
  obtain ⟨digits, hdigits, hnumber⟩ := exists_spellsNumber.mpr ⟨_, x.fraction_form, rfl⟩
  obtain ⟨first, more, hcons⟩ := List.exists_cons_of_ne_nil x.whole_nonempty
  obtain ⟨mark, hmark⟩ := Option.ne_none_iff_exists'.mp hlone.2
  have hunit : x.unit = [mark, x.last] := by
    unfold SizeForm.unit
    rw [hlone.1, hmark]
    rfl
  have hupper : mark.toUpper = 'I' := x.unit_form.mark mark hmark
  have halpha : mark.isAlpha = true := isAlpha_of_toUpper (by rw [hupper]; decide)
  have hhead : ∃ c, ((x.whole ++ x.fraction) ++ (x.gap ++ x.unit)).head? = some c
      ∧ isDigit c = true :=
    ⟨first, by rw [hcons]; rfl, x.whole_digits first (hcons ▸ List.mem_cons_self)⟩
  unfold SizeForm.text
  rw [read_eq, readSign_append hsign hhead, hunit, readBody_append hnumber x.whole_nonempty
    x.whole_digits hdigits x.gap_blank rfl halpha, readUnit_mark hupper]
  rfl

theorem readLetter_eq_error {fault : SizeFault} (h : readLetter s = .error fault) :
    fault = .unknownLetter := by
  unfold readLetter at h
  split at h
  · dsimp only at h
    split_ifs at h
    split at h
    · exact absurd h (by simp)
    · exact (Except.error.inj h).symm
  · exact absurd h (by simp)

theorem readEnd_eq_error {factor : Binary64} {fault : SizeFault}
    (h : readEnd factor s = .error fault) : fault = .missingUnit ∨ fault = .trailing := by
  unfold readEnd at h
  split at h
  · split_ifs at h
    · exact .inr (Except.error.inj h).symm
    · exact .inl (Except.error.inj h).symm
  · exact .inl (Except.error.inj h).symm

/-- Whatever is wrong with a unit, it is no number. -/
theorem readUnit_ne_badNumber {fault : SizeFault} (h : readUnit s = .error fault) :
    fault ≠ .badNumber := by
  rw [readUnit_eq] at h
  cases hletter : readLetter s with
  | error e =>
      rw [hletter] at h
      obtain rfl : e = fault := Except.error.inj h
      rw [readLetter_eq_error hletter]
      simp
  | ok p =>
      rw [hletter] at h
      rcases readEnd_eq_error h with rfl | rfl <;> simp

/-- **What starts with a digit starts with a number.** -/
theorem read_ne_badNumber {fault : SizeFault} (h : read s = .error fault) :
    fault ≠ .badNumber := by
  rw [read_eq] at h
  by_cases hne : (readSign s).2.takeWhile isDigit = []
  · rw [readBody_no_number hne] at h
    obtain rfl := Except.error.inj h
    simp
  · obtain ⟨_, -, -, -, hvalue⟩ := read?_splitNumber hne
    rw [readBody_number hne hvalue] at h
    cases hunit : readUnit (Text.trimStart (splitNumber (readSign s).2).2) with
    | ok factor =>
        rw [hunit] at h
        exact absurd h (by simp [Except.bind])
    | error e =>
        rw [hunit] at h
        obtain rfl : e = fault := Except.error.inj h
        exact readUnit_ne_badNumber hunit

/-! ## Cuts between octets -/

/-- A digit, by its octet. -/
def isDigitOctet (b : UInt8) : Bool := 0x30 ≤ b && b ≤ 0x39

/-- How many digits stand first. -/
def digitRun (octets : List UInt8) : Nat := (octets.takeWhile isDigitOctet).length

/-- Where a scan of the octets cuts a text: behind the digits, and if a point follows, behind the
point and behind the digits that follow it. -/
def cuts (octets : List UInt8) : List Nat :=
  let whole := digitRun octets
  if octets[whole]? = some 0x2E then
    [whole, whole + 1, whole + 1 + digitRun (octets.drop (whole + 1))]
  else [whole]

/-- The octets of characters. -/
def octets (s : List Char) : List UInt8 := Text.encode (String.ofList s)

theorem octets_eq (s : List Char) : octets s = s.flatMap String.utf8EncodeChar := by
  rw [octets, Text.encode_eq, String.toList_ofList]

theorem octets_append (s t : List Char) : octets (s ++ t) = octets s ++ octets t := by
  rw [octets_eq, octets_eq, octets_eq, List.flatMap_append]

theorem length_octets (s : List Char) : (octets s).length = (String.ofList s).utf8ByteSize := by
  unfold octets Text.encode
  rw [Array.length_toList, ByteArray.size_data, String.toUTF8_eq_toByteArray,
    String.size_toByteArray]

theorem isDigit_lt {c : Char} (h : isDigit c = true) : c.toNat < 0x80 := by
  have hhigh : c ≤ '9' := of_decide_eq_true ((Bool.and_eq_true _ _).mp h).2
  exact Nat.lt_of_le_of_lt hhigh (by decide)

/-- A digit is an octet of its own, and no other character starts with one. -/
theorem exists_octet (c : Char) : ∃ b more, String.utf8EncodeChar c = b :: more
    ∧ isDigitOctet b = isDigit c ∧ (isDigit c = true → more = []) := by
  obtain ⟨b, more, henc, -⟩ := Text.decodeStep_encode [] c
  refine ⟨b, more, henc, ?_⟩
  by_cases hb : b.toNat < 0x80
  · -- an octet below 128 is the character itself
    obtain ⟨hc, hmore⟩ := Text.eq_of_utf8EncodeChar henc hb
    have hall : ∀ n < 0x80, isDigitOctet (UInt8.ofNat n) = isDigit (Char.ofNat n) := by decide
    have hdigit := hall b.toNat hb
    rw [UInt8.ofNat_toNat, ← hc] at hdigit
    exact ⟨hdigit, fun _ => hmore⟩
  · -- all others start characters that are no digits
    have hnone : isDigit c = false := by
      refine Bool.eq_false_iff.mpr fun hdigit => hb ?_
      have hlt := isDigit_lt hdigit
      obtain ⟨rfl, -⟩ := List.cons.inj (henc.symm.trans (Text.utf8EncodeChar_of_lt hlt))
      rw [Text.toNat_ofNat_of_lt (by omega)]
      exact hlt
    have hbeyond : isDigitOctet b = false := by
      refine Bool.eq_false_iff.mpr fun hdigit => hb ?_
      have hhigh : b ≤ 0x39 := of_decide_eq_true ((Bool.and_eq_true _ _).mp hdigit).2
      exact Nat.lt_of_le_of_lt hhigh (by decide)
    exact ⟨hbeyond.trans hnone.symm, fun hdigit => absurd (hnone.symm.trans hdigit) (by decide)⟩

/-- Digits are counted among octets as among characters. -/
theorem digitRun_octets (s : List Char) :
    digitRun (octets s) = (octets (s.takeWhile isDigit)).length := by
  induction s with
  | nil => rfl
  | cons c s ih =>
      obtain ⟨b, more, henc, hdigit, hmore⟩ := exists_octet c
      have hcons : ∀ t, octets (c :: t) = b :: (more ++ octets t) := by
        intro t
        rw [octets_eq, octets_eq, List.flatMap_cons, henc, List.cons_append]
      unfold digitRun at ih ⊢
      by_cases hc : isDigit c = true
      · obtain rfl := hmore hc
        rw [List.takeWhile_cons_of_pos hc, hcons, hcons,
          List.takeWhile_cons_of_pos (hdigit.trans hc), List.length_cons, List.nil_append, ih]
        rfl
      · rw [List.takeWhile_cons_of_neg hc, hcons,
          List.takeWhile_cons_of_neg (by rw [hdigit]; exact hc)]
        rfl

/-- An octet that is a point is the character. -/
theorem head?_octets (s : List Char) : (octets s).head? = some 0x2E ↔ s.head? = some '.' := by
  cases s with
  | nil => exact iff_of_false (by decide) (by simp)
  | cons c s =>
      obtain ⟨b, more, henc, -⟩ := Text.decodeStep_encode [] c
      rw [octets_eq, List.flatMap_cons, henc, List.cons_append, List.head?_cons, List.head?_cons,
        Option.some_inj, Option.some_inj]
      constructor
      · rintro rfl
        exact (Text.eq_of_utf8EncodeChar henc (by decide)).1
      · rintro rfl
        exact (List.cons.inj henc).1.symm

/-- Where the digits end, the next octet is that of the next character. -/
theorem octets_at_run {s whole rest : List Char} (hwhole : s.takeWhile isDigit = whole)
    (hrest : s.dropWhile isDigit = rest) :
    digitRun (octets s) = (octets whole).length
      ∧ (octets s)[digitRun (octets s)]? = (octets rest).head? := by
  have hsplit : octets s = octets whole ++ octets rest := by
    rw [← octets_append, ← hwhole, ← hrest, List.takeWhile_append_dropWhile]
  have hrun : digitRun (octets s) = (octets whole).length := hwhole ▸ digitRun_octets s
  refine ⟨hrun, ?_⟩
  rw [hrun, hsplit, List.getElem?_append_right le_rfl, Nat.sub_self, List.head?_eq_getElem?]

/-- The cuts lie behind characters that the text starts with, and the last one behind its number. -/
theorem cuts_octets (s : List Char) : ∃ fronts : List (List Char),
    cuts (octets s) = fronts.map (fun front => (octets front).length)
      ∧ (∀ front ∈ fronts, front <+: s) ∧ fronts.getLast? = some (splitNumber s).1 := by
  obtain ⟨whole, hwhole⟩ : ∃ whole, s.takeWhile isDigit = whole := ⟨_, rfl⟩
  obtain ⟨rest, hrest⟩ : ∃ rest, s.dropWhile isDigit = rest := ⟨_, rfl⟩
  obtain ⟨hrun, hnext⟩ := octets_at_run hwhole hrest
  have hall : whole ++ rest = s := by
    rw [← hwhole, ← hrest, List.takeWhile_append_dropWhile]
  unfold cuts splitNumber
  dsimp only
  rw [hnext, hrun, hwhole, hrest]
  by_cases hpoint : rest.head? = some '.'
  · obtain ⟨t, rfl⟩ := List.head?_eq_some_iff.mp hpoint
    have hone : (octets (whole ++ ['.'])).length = (octets whole).length + 1 := by
      rw [octets_append, List.length_append]
      rfl
    -- behind the point the scan starts again
    have hsplit : whole ++ ['.'] ++ t = s := by rw [← List.append_cons, hall]
    have hbehind : (octets s).drop ((octets whole).length + 1) = octets t := by
      rw [← hsplit, octets_append]
      exact List.drop_left' hone
    have hcut : (octets (whole ++ ['.'] ++ t.takeWhile isDigit)).length
        = (octets whole).length + 1 + digitRun (octets t) := by
      rw [octets_append, List.length_append, hone, digitRun_octets t]
    rw [if_pos ((head?_octets _).mpr hpoint), hbehind]
    refine ⟨[whole, whole ++ ['.'], whole ++ ['.'] ++ t.takeWhile isDigit], ?_, ?_, ?_⟩
    · rw [List.map_cons, List.map_cons, List.map_cons, List.map_nil, hone, hcut]
    · have hprefix : t.takeWhile isDigit <+: t := List.takeWhile_prefix _
      have hlast : whole ++ ['.'] ++ t.takeWhile isDigit <+: s := by
        rw [← hsplit]
        exact (List.prefix_append_right_inj _).mpr hprefix
      have hmiddle := (List.prefix_append (whole ++ ['.']) (t.takeWhile isDigit)).trans hlast
      have hfirst := (List.prefix_append whole ['.']).trans hmiddle
      intro front hfront
      rcases List.mem_cons.mp hfront with rfl | hfront
      · exact hfirst
      · rcases List.mem_cons.mp hfront with rfl | hfront
        · exact hmiddle
        · exact List.mem_singleton.mp hfront ▸ hlast
    · rw [List.append_assoc, List.singleton_append]
      rfl
  · rw [if_neg (mt (head?_octets _).mp hpoint)]
    refine ⟨[whole], rfl, ?_, ?_⟩
    · intro front hfront
      rw [List.mem_singleton.mp hfront, ← hall]
      exact List.prefix_append _ _
    · split
      next t => exact absurd rfl hpoint
      next => rfl

/-- **No cut is inside of a character.** -/
theorem isValid_of_mem_cuts {n : Nat} (hn : n ∈ cuts (octets s)) :
    String.Pos.Raw.IsValid (String.ofList s) ⟨n⟩ := by
  obtain ⟨fronts, hcuts, hprefix, -⟩ := cuts_octets s
  rw [hcuts] at hn
  obtain ⟨front, hfront, rfl⟩ := List.mem_map.mp hn
  obtain ⟨back, rfl⟩ := hprefix front hfront
  refine String.Pos.Raw.isValid_iff_exists_append.mpr
    ⟨String.ofList front, String.ofList back, String.ofList_append, ?_⟩
  rw [length_octets]
  rfl

/-! ## All texts -/

/-- A text without the blanks around it and its sign. -/
def body (text : String) : List Char := (readSign (Text.trim text.toList)).2

/-- **Which texts are read as sizes**, and how. Those are read that have the documented form, but
for a lone `i`, which is refused as a letter. No text is refused because its number is none, and
where the octets behind its sign are cut, the last time behind the number, a character ends. -/
theorem parse_documented (text : String) :
    ((∃ size, parse text = .ok size) ↔
        ∃ x : SizeForm, x.text = Text.trim text.toList ∧ ¬ x.IsLone)
      ∧ (∀ x : SizeForm, x.text = Text.trim text.toList → x.IsLone →
          parse text = .error ⟨text, .unknownLetter⟩)
      ∧ (∀ e, parse text = .error e → e.fault ≠ .badNumber)
      ∧ (∀ n ∈ cuts (octets (body text)),
          String.Pos.Raw.IsValid (String.ofList (body text)) ⟨n⟩)
      ∧ (cuts (octets (body text))).getLast?
          = some (octets (splitNumber (body text)).1).length := by
  refine ⟨?_, fun x hx hlone => ?_, fun e he => ?_, fun n hn => isValid_of_mem_cuts hn, ?_⟩
  · rw [← exists_spellsCore]
    unfold parse
    constructor
    · rintro ⟨size, h⟩
      obtain ⟨x, hx, -⟩ := read_eq_ok.mp (mapError_eq_ok.mp h)
      exact ⟨x, hx⟩
    · rintro ⟨x, hx⟩
      exact ⟨x.size, mapError_eq_ok.mpr (read_eq_ok.mpr ⟨x, hx, rfl⟩)⟩
  · unfold parse
    rw [← hx, read_lone x hlone]
    rfl
  · unfold parse at he
    cases hread : read (Text.trim text.toList) with
    | ok size =>
        rw [hread] at he
        exact absurd he (by simp [Except.mapError])
    | error fault =>
        rw [hread] at he
        obtain rfl := Except.error.inj he
        exact read_ne_badNumber hread
  · obtain ⟨fronts, hcuts, -, hlast⟩ := cuts_octets (body text)
    rw [hcuts, List.getLast?_map, hlast]
    rfl

/-- Five of a unit with an `i`. -/
def five (letter : Option Char) (hletter : ∀ c ∈ letter, c.toUpper ∈ unitLetters) : SizeForm where
  sign := []
  whole := ['5']
  fraction := []
  gap := [' ']
  letter
  mark := some 'i'
  last := 'B'
  sign_form := .inl rfl
  whole_nonempty := by simp
  whole_digits := List.forall_mem_singleton.mpr (by decide)
  fraction_form := .inl rfl
  gap_blank := List.forall_mem_singleton.mpr (by decide)
  unit_form := ⟨hletter, fun _ hc => Option.some.inj hc ▸ rfl, rfl⟩

/-- With a letter it is read, and without one it is not. What is cut may go on in any way. -/
theorem parse_documented_five :
    (∃ size, parse " 5 kiB" = .ok size) ∧ parse "5 iB" = .error ⟨"5 iB", .unknownLetter⟩
      ∧ cuts (octets (body "-5.é")) = [1, 2, 2]
      ∧ String.Pos.Raw.IsValid (String.ofList (body "-5.é")) ⟨2⟩ := by
  obtain ⟨hread, -⟩ := parse_documented " 5 kiB"
  obtain ⟨-, hrefused, -⟩ := parse_documented "5 iB"
  obtain ⟨-, -, -, hvalid, -⟩ := parse_documented "-5.é"
  have hletter : ∀ c ∈ some 'k', c.toUpper ∈ unitLetters := by
    intro c hc
    obtain rfl := Option.some.inj hc
    decide
  exact ⟨hread.mpr ⟨five (some 'k') hletter, rfl, by simp [SizeForm.IsLone, five]⟩,
    hrefused (five none (by simp)) (by decide) ⟨rfl, by simp [five]⟩,
    by decide, hvalid 2 (by decide)⟩

/-- **The documented form is not all read.** -/
theorem parse_lone :
    (∃ x : SizeForm, x.text = Text.trim "5 iB".toList)
      ∧ parse "5 iB" = .error ⟨"5 iB", .unknownLetter⟩
      ∧ ¬ ∀ text, (∃ size, parse text = .ok size) ↔
        ∃ x : SizeForm, x.text = Text.trim text.toList := by
  have hform : ∃ x : SizeForm, x.text = Text.trim "5 iB".toList :=
    ⟨five none (by simp), by decide⟩
  have hrefused : parse "5 iB" = .error ⟨"5 iB", .unknownLetter⟩ := by decide
  refine ⟨hform, hrefused, fun hall => ?_⟩
  obtain ⟨size, hsize⟩ := (hall "5 iB").mpr hform
  exact absurd (hrefused.symm.trans hsize) (by simp)

end ByteSize

end PacedNet
