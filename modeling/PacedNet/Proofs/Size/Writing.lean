import PacedNet.Proofs.Size.Exactness

/-!
# How sizes read that were written

What a size is written as is a size as it is written (`format_spells`): the number in front of the
unit is the size itself where the unit is the byte, and where it is not, the quotient by the unit,
rounded to the places asked for. The unit is no greater than the size, so that the number is one at
least.

A size that was written is therefore read again, though not always as the size that it was. Written
with two places it comes back as twice the size at most, and as it was if two places are enough for
it (`display_reads`).
-/

namespace PacedNet

open BinaryFormat

/-! ## Numbers with a fixed number of places -/

theorem digitsValue_replicate_append (n : Nat) (s : List Char) :
    digitsValue (List.replicate n '0' ++ s) = digitsValue s := by
  induction n with
  | zero => rfl
  | succ n ih => rw [List.replicate_succ, List.cons_append]; exact ih

/-- **A number with a fixed number of places is written as a number**, and stands for the nearest
multiple of the last place. -/
theorem Decimal.fixed_spells (places : Nat) (magnitude : Rat) :
    ∃ whole fraction, SpellsNumber whole fraction (fixed places magnitude).toList ∧ whole ≠ []
      ∧ (∀ c ∈ whole, isDigit c = true) ∧ (∀ c ∈ fraction, isDigit c = true)
      ∧ fraction.length = places
      ∧ digitsValue (whole ++ fraction)
        = (roundHalfEven (magnitude * (10 : Rat) ^ places)).toNat := by
  unfold fixed
  dsimp only
  generalize (roundHalfEven (magnitude * (10 : Rat) ^ places)).toNat = n
  generalize hpadded : List.replicate (places + 1 - (Nat.toDigits 10 n).length) '0'
    ++ Nat.toDigits 10 n = padded
  have hlength : places + 1 ≤ padded.length := by
    rw [← hpadded, List.length_append, List.length_replicate]
    omega
  have hdigits : ∀ c ∈ padded, isDigit c = true := by
    intro c hc
    rw [← hpadded] at hc
    rcases List.mem_append.mp hc with hc | hc
    · rw [List.eq_of_mem_replicate hc]
      decide
    · exact isDigit_of_mem_toDigits hc
  have hvalue : digitsValue padded = n := by
    rw [← hpadded, digitsValue_replicate_append, digitsValue_toDigits]
  refine ⟨padded.take (padded.length - places), padded.drop (padded.length - places), ?_, ?_,
    fun c hc => hdigits c (List.mem_of_mem_take hc),
    fun c hc => hdigits c (List.mem_of_mem_drop hc), ?_, ?_⟩
  · by_cases hplaces : places = 0
    · rw [if_pos hplaces, hplaces, String.toList_ofList, Nat.sub_zero, List.drop_length]
      exact .whole _
    · rw [if_neg hplaces, String.toList_append, String.toList_append, String.toList_ofList,
        String.toList_ofList, String.toList_ofList, List.append_assoc]
      exact .pointed _ _
  · intro hnil
    have := congrArg List.length hnil
    rw [List.length_take, List.length_nil] at this
    omega
  · rw [List.length_drop]
    omega
  · rw [List.take_append_drop, hvalue]

/-! ## Units -/

namespace ByteSize

variable {family : UnitFamily} {e : Nat} {m : Rat}

theorem unitExponent_le (family : UnitFamily) (m : Rat) : unitExponent family m ≤ 8 := by
  unfold unitExponent
  refine (List.takeWhile_prefix _).length_le.trans ?_
  rw [List.length_range]
  decide

/-- The unit is no greater than the size. -/
theorem power_unitExponent_le (family : UnitFamily) (hm : 1 ≤ m) :
    (family.base : Rat) ^ unitExponent family m ≤ m := by
  have hle := unitExponent_le family m
  rcases hexponent : unitExponent family m with _ | i
  · rwa [pow_zero]
  · have htaken := List.prefix_iff_eq_take.mp (List.takeWhile_prefix
      (fun i => decide ((family.base : Rat) ^ (i + 1) ≤ m)) (l := List.range unitLetters.length))
    have hletters : unitLetters.length = 8 := rfl
    unfold unitExponent at hexponent hle
    rw [hexponent] at htaken hle
    have hmem : i ∈ (List.range unitLetters.length).takeWhile
        fun i => decide ((family.base : Rat) ^ (i + 1) ≤ m) := by
      rw [htaken, List.take_range, List.mem_range]
      omega
    have hfits := List.mem_takeWhile_imp hmem
    exact of_decide_eq_true hfits

theorem unitName_spells (family : UnitFamily) {i : Nat} (hi : i < 8) :
    SpellsUnit family (i + 1) (unitName family (i + 1)).toList := by
  have hall : ∀ i < 8, (unitLetters.drop i).take 1 = [unitLetters.getD i ' ']
      ∧ unitLetters[i]? = some (unitLetters.getD i ' ').toUpper := by decide
  obtain ⟨hname, hletter⟩ := hall i hi
  unfold unitName
  dsimp only
  rw [hname, String.toList_append, String.toList_ofList]
  cases family with
  | binary => exact .binary hletter (Or.inl rfl) (Or.inr rfl)
  | decimal => exact .decimal hletter (Or.inr rfl)

/-! ## Sizes -/

variable {places : Nat} {s : ByteSize}

/-- The magnitude that is written, and the number that it is written as. -/
def writtenMagnitude (s : ByteSize) : Rat := double.nearest s.bytes.natAbs

def writtenNumber (family : UnitFamily) (places : Nat) (s : ByteSize) : Rat :=
  match unitExponent family s.writtenMagnitude with
  | 0 => s.bytes.natAbs
  | e => (roundHalfEven (double.nearest (s.writtenMagnitude / (family.base : Rat) ^ e)
      * (10 : Rat) ^ places)).toNat * (10 : Rat) ^ (-(places : Int))

theorem sign_spells (s : ByteSize) :
    SpellsSign (decide (s.bytes < 0)) (if s.bytes < 0 then "-" else "").toList := by
  by_cases hneg : s.bytes < 0
  · rw [if_pos hneg, decide_eq_true hneg]
    exact @SpellsSign.minus [] (by simp)
  · rw [if_neg hneg, decide_eq_false hneg]
    exact .none

/-- **A size is written as sizes are written.** -/
theorem format_spells (family : UnitFamily) (places : Nat) (s : ByteSize) :
    ∃ x : Quantity, x.Spells (s.format family places).toList
      ∧ x.negative = decide (s.bytes < 0)
      ∧ x.exponent = unitExponent family s.writtenMagnitude
      ∧ (x.exponent = 0 ∨ x.family = family)
      ∧ x.number.toRat = s.writtenNumber family places := by
  have hsign := s.sign_spells
  have hle := unitExponent_le family s.writtenMagnitude
  have hgap : ∀ c ∈ [' '], Text.isBlank c = true := List.all_eq_true.mp rfl
  unfold format writtenNumber
  rw [← writtenMagnitude]
  dsimp only
  generalize (if s.bytes < 0 then "-" else "") = sign at hsign ⊢
  rcases hexponent : unitExponent family s.writtenMagnitude with _ | i
  · let x : Quantity :=
      ⟨decide (s.bytes < 0), Nat.toDigits 10 s.bytes.natAbs, [], .decimal, 0⟩
    have hbody : x.SpellsBody (Nat.toDigits 10 s.bytes.natAbs ++ ([' '] ++ ['B'])) :=
      ⟨Nat.toDigits_ne_nil, fun c hc => isDigit_of_mem_toDigits hc, by simp [x], _, _, _, .whole _,
        hgap, .byte (Or.inr rfl), rfl⟩
    refine ⟨x, ?_, rfl, rfl, Or.inl rfl, ?_⟩
    · have htext : (toString sign ++ toString s.bytes.natAbs ++ " B").toList
          = sign.toList ++ (Nat.toDigits 10 s.bytes.natAbs ++ ([' '] ++ ['B'])) := by
        rw [String.toList_append, String.toList_append, toList_toString, List.append_assoc]
        rfl
      exact htext ▸ hbody.spells hsign
    · show (digitsValue (Nat.toDigits 10 s.bytes.natAbs ++ []) : Rat) * 10 ^ (-(0 : Int)) = _
      rw [List.append_nil, digitsValue_toDigits, neg_zero, zpow_zero, mul_one]
      rfl
  · rw [hexponent] at hle
    obtain ⟨whole, fraction, hspells, hne, hwhole, hfraction, hlength, hvalue⟩ :=
      Decimal.fixed_spells places
        (double.nearest (s.writtenMagnitude / (family.base : Rat) ^ (i + 1)))
    let x : Quantity := ⟨decide (s.bytes < 0), whole, fraction, family, i + 1⟩
    generalize hnumber : Decimal.fixed places
      (double.nearest (s.writtenMagnitude / (family.base : Rat) ^ (i + 1))) = number at hspells
    have hbody : x.SpellsBody (number.toList ++ ([' '] ++ (unitName family (i + 1)).toList)) :=
      ⟨hne, hwhole, hfraction, _, _, _, hspells, hgap, unitName_spells family (by omega), rfl⟩
    refine ⟨x, ?_, rfl, rfl, Or.inr rfl, ?_⟩
    · have htext : (toString sign ++ toString number ++ " "
            ++ toString (unitName family (i + 1))).toList
          = sign.toList ++ (number.toList ++ ([' '] ++ (unitName family (i + 1)).toList)) := by
        simp only [String.toList_append, List.append_assoc]
        rfl
      have hspelled := hbody.spells hsign
      rw [← htext, ← hnumber] at hspelled
      exact hspelled
    · show (digitsValue (whole ++ fraction) : Rat) * 10 ^ (-(fraction.length : Int)) = _
      rw [hvalue, hlength]
      rfl

end ByteSize

/-! ## Reading what was written -/

variable {n : Nat} {x : Quantity}

/-- Rounding and a unit that is a power of two lift no number above a bound that is whole. -/
theorem Quantity.product_le (hunit : x.family = .binary ∨ x.exponent = 0) (he : x.exponent ≤ 8)
    (hn : n ≤ 2 ^ 53) (h : x.number.toRat * (x.family.base : Rat) ^ x.exponent ≤ n) :
    double.nearest x.number.toRat * double.nearest ((x.family.base : Rat) ^ x.exponent) ≤ n
      ∧ x.product ≤ n := by
  obtain ⟨k, hk, hpower⟩ := Quantity.exists_power hunit he
  unfold product
  rw [hpower] at h ⊢
  have hpos : (0 : Rat) < 2 ^ k := by positivity
  have hd := x.number.toRat_nonneg
  have hround := nearest_mono (F := .double) (by decide) hd ((le_div_iff₀ hpos).mpr h)
  rw [nearest_div_two_pow hn (by omega), le_div_iff₀ hpos] at hround
  rw [Binary.nearest_two_pow]
  exact ⟨hround, nearest_le_natCast hn (mul_nonneg (nearest_nonneg _ hd) hpos.le) hround⟩

/-- A number without a sign that is no greater than a whole bound is read as no more than that. -/
theorem Quantity.size_le (hunit : x.family = .binary ∨ x.exponent = 0) (he : x.exponent ≤ 8)
    (hn : n ≤ 2 ^ 53) (h : x.number.toRat * (x.family.base : Rat) ^ x.exponent ≤ n)
    (hsign : x.negative = false) : 0 ≤ x.size.bytes ∧ x.size.bytes ≤ n := by
  obtain ⟨hrange, hproduct⟩ := Quantity.product_le hunit he hn h
  have hsmall : (n : Rat) ≤ 2 ^ 118 := by exact_mod_cast hn.trans (by norm_num)
  have hnumber : x.number.toRat ≤ 2 ^ 118 :=
    (le_mul_of_one_le_right x.number.toRat_nonneg (x.family.one_le_power _)).trans (h.trans hsmall)
  have hlow : 0 ≤ x.product.floor := Rat.le_floor_iff.mpr (by simpa using x.product_nonneg)
  have hhigh : x.product.floor ≤ n := by
    have hfloor : (x.product.floor : Rat) ≤ n := (Rat.floor_le _).trans hproduct
    exact_mod_cast hfloor
  have hbytes := Quantity.size_bytes he hnumber (hrange.trans hsmall)
  rw [hsign, truncate_signed _ x.product_nonneg, if_neg (by decide)] at hbytes
  exact ⟨by omega, by omega⟩

namespace ByteSize

variable {r s : ByteSize} {places : Nat}

theorem eq_of_bytes (h : r.bytes = s.bytes) : r = s := by
  cases r
  cases s
  cases h
  rfl

/-- The exponent of the unit that a size is displayed in. -/
def displayedExponent (s : ByteSize) : Nat := unitExponent .binary s.writtenMagnitude

/-- How many of that unit a size is. -/
def inUnits (s : ByteSize) : Rat := s.bytes.natAbs / 2 ^ (10 * s.displayedExponent)

theorem inUnits_mul (s : ByteSize) : s.inUnits * 2 ^ (10 * s.displayedExponent) = s.bytes.natAbs :=
  div_mul_cancel₀ _ (by positivity)

theorem writtenMagnitude_eq (h : s.bytes.natAbs ≤ 2 ^ 53) : s.writtenMagnitude = s.bytes.natAbs :=
  nearest_natCast h

/-- What is written of a size that the format holds is its quotient by the unit, rounded once. -/
theorem writtenNumber_eq (h : s.bytes.natAbs ≤ 2 ^ 53) : s.writtenNumber .binary places
    = (roundHalfEven (s.inUnits * (10 : Rat) ^ places)).toNat * (10 : Rat) ^ (-(places : Int)) := by
  have hle := unitExponent_le .binary s.writtenMagnitude
  unfold writtenNumber inUnits displayedExponent
  rcases hexponent : unitExponent .binary s.writtenMagnitude with _ | i
  · -- bytes have no places to round to
    show (s.bytes.natAbs : Rat) = _
    generalize s.bytes.natAbs = n
    have hbytes : (n : Rat) / 2 ^ (10 * 0) * 10 ^ places = ((n * 10 ^ places : Nat) : Int) := by
      push_cast
      ring
    rw [hbytes, roundHalfEven_intCast, Int.toNat_natCast, zpow_neg, zpow_natCast]
    push_cast
    rw [mul_assoc, mul_inv_cancel₀ (by positivity), mul_one]
  · rw [hexponent] at hle
    show ((roundHalfEven (double.nearest (s.writtenMagnitude
      / (UnitFamily.binary.base : Rat) ^ (i + 1)) * _)).toNat : Rat) * _ = _
    rw [UnitFamily.binary_power, writtenMagnitude_eq h, nearest_div_two_pow h (by omega)]

/-- The parts of a size that the format holds as it is displayed. -/
theorem display_spells (h : s.bytes.natAbs ≤ 2 ^ 53) :
    ∃ x : Quantity, x.Spells s.display.toList ∧ x.negative = decide (s.bytes < 0)
      ∧ (x.family = .binary ∨ x.exponent = 0)
      ∧ (x.family.base : Rat) ^ x.exponent = 2 ^ (10 * s.displayedExponent)
      ∧ x.number.toRat = (roundHalfEven (s.inUnits * 100)).toNat / (100 : Rat) := by
  obtain ⟨x, hx, hnegative, hexponent, hfamily, hnumber⟩ := format_spells .binary 2 s
  refine ⟨x, hx, hnegative, hfamily.symm, ?_, ?_⟩
  · rw [displayedExponent, ← hexponent]
    rcases hfamily with hzero | hfamily
    · rw [hzero, pow_zero, Nat.mul_zero, pow_zero]
    · rw [hfamily, UnitFamily.binary_power]
  · have hplaces : (10 : Rat) ^ (-(2 : Nat) : Int) = 100⁻¹ := by norm_num
    have hscale : (10 : Rat) ^ 2 = 100 := by norm_num
    rw [hnumber, writtenNumber_eq h, hplaces, hscale, ← div_eq_mul_inv]

/-- **A size that two places are enough for is read as it was written.** -/
theorem parse_display (h : s.bytes.natAbs ≤ 2 ^ 53)
    (hplaces : 2 ^ (10 * s.displayedExponent) ∣ 100 * s.bytes.natAbs) :
    parse s.display = .ok s := by
  obtain ⟨x, hx, hnegative, hunit, hpower, hnumber⟩ := display_spells h
  obtain ⟨d, hd⟩ := hplaces
  have hpos : (0 : Rat) < 2 ^ (10 * s.displayedExponent) := by positivity
  have hdigits : s.inUnits * 100 = (d : Int) := by
    have hd' : (100 : Rat) * s.bytes.natAbs = 2 ^ (10 * s.displayedExponent) * d := by
      exact_mod_cast hd
    rw [inUnits, div_mul_eq_mul_div, div_eq_iff hpos.ne', mul_comm, hd', mul_comm]
    rfl
  have hwhole : x.number.toRat * (x.family.base : Rat) ^ x.exponent = s.bytes.natAbs := by
    rw [hnumber, hpower, hdigits, roundHalfEven_intCast, Int.toNat_natCast, ← s.inUnits_mul]
    congr 1
    rw [div_eq_iff (by norm_num), hdigits, Int.cast_natCast]
  obtain ⟨k, hbytes, -, -, hexact⟩ := Quantity.size_whole hx.exponent_le hwhole h
  have hk := hexact (Quantity.nearest_number hunit hx.exponent_le hwhole h)
  refine parse_eq_ok.mpr ⟨x, hx, eq_of_bytes ?_⟩
  rw [hbytes, hnegative, hk]
  by_cases hneg : s.bytes < 0
  · rw [decide_eq_true hneg, if_pos rfl]
    omega
  · rw [decide_eq_false hneg, if_neg (by decide)]
    omega

/-- A size is one of the displayed unit at least. -/
theorem one_le_inUnits (h : s.bytes.natAbs ≤ 2 ^ 53) (hne : s.bytes ≠ 0) : 1 ≤ s.inUnits := by
  have hone : (1 : Rat) ≤ s.bytes.natAbs := by exact_mod_cast (by omega : 1 ≤ s.bytes.natAbs)
  have hmagnitude := writtenMagnitude_eq h
  have hfits := power_unitExponent_le .binary (hone.trans_eq hmagnitude.symm)
  rw [UnitFamily.binary_power] at hfits
  exact (one_le_div (by positivity)).mpr (hfits.trans_eq hmagnitude)

theorem roundHalfEven_toNat_le {q : Rat} (hq : 1 ≤ q) :
    ((roundHalfEven (q * 100)).toNat : Rat) ≤ 200 * q := by
  have hround := (abs_le.mp (abs_roundHalfEven_sub_le (q * 100))).2
  have hnonneg : 0 ≤ roundHalfEven (q * 100) := by
    have hmono := roundHalfEven_mono (by push_cast; linarith : ((0 : Int) : Rat) ≤ q * 100)
    rwa [roundHalfEven_intCast] at hmono
  rw [← Int.cast_natCast, Int.toNat_of_nonneg hnonneg]
  linarith

/-- **A size is read as twice what was written at most.** -/
theorem parse_display_le (hpos : 0 < s.bytes) (h : 2 * s.bytes ≤ 2 ^ 53) :
    ∃ r, parse s.display = .ok r ∧ 0 ≤ r.bytes ∧ r.bytes ≤ 2 * s.bytes := by
  have hn : s.bytes.natAbs ≤ 2 ^ 53 := by omega
  obtain ⟨x, hx, hnegative, hunit, hpower, hnumber⟩ := display_spells hn
  -- the number is one at least, and rounding to a hundredth does not double it
  have hdouble : x.number.toRat * (x.family.base : Rat) ^ x.exponent
      ≤ (2 * s.bytes.natAbs : Nat) := by
    have hdigits := roundHalfEven_toNat_le (one_le_inUnits hn hpos.ne')
    rw [hnumber, hpower]
    push_cast
    calc ((roundHalfEven (s.inUnits * 100)).toNat : Rat) / 100 * 2 ^ (10 * s.displayedExponent)
        ≤ 2 * s.inUnits * 2 ^ (10 * s.displayedExponent) :=
          mul_le_mul_of_nonneg_right (by linarith) (by positivity)
      _ = 2 * s.bytes.natAbs := by rw [mul_assoc, s.inUnits_mul]
  have hsign : x.negative = false := hnegative.trans (decide_eq_false (by omega))
  obtain ⟨hlow, hhigh⟩ := Quantity.size_le hunit hx.exponent_le (by omega) hdouble hsign
  exact ⟨x.size, parse_eq_ok.mpr ⟨x, hx, rfl⟩, hlow, by omega⟩

end ByteSize

end PacedNet
