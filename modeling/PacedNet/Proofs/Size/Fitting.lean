import PacedNet.Proofs.Size.Writing

/-!
# The unit that fits

A size is written in the largest unit that is no greater than it (`unit_fits`), and 64 bits never
call for one of the two greatest. The number in front of the unit is the quotient by the unit,
rounded to the places asked for. So it is one at least, and the base at most (`writtenNumber_mem`).

It may be the base itself. The unit is chosen before the number is rounded, and half a last place
below the base the rounding goes up: one byte less than a mebibyte is written `1024.00 KiB`
(`format_full`). Nowhere else does a number reach the base (`format_fits`).
-/

namespace PacedNet

open BinaryFormat

/-! ## Numbers with a fixed number of places -/

variable {places n : Nat} {q x : Rat}

/-- What rounds to an even integer from below is a half away at most. -/
theorem roundHalfEven_eq_iff_of_le {n : Int} (heven : n % 2 = 0) (hx : x ≤ n) :
    roundHalfEven x = n ↔ (n : Rat) - 1 / 2 ≤ x := by
  constructor
  · intro hround
    have herror := (abs_le.mp (abs_roundHalfEven_sub_le x)).2
    rw [hround] at herror
    linarith
  · intro hnear
    rcases hx.eq_or_lt with rfl | hlt
    · exact roundHalfEven_intCast n
    · have hlow : n - 1 ≤ x.floor := Rat.le_floor_iff.mpr (by push_cast; linarith)
      have hhigh : x.floor < n := Rat.floor_lt_iff.mpr hlt
      have hfloor : x.floor = n - 1 := by omega
      have hodd : ¬ (n - 1) % 2 = 0 := by omega
      have hrest : ¬ x - ((n - 1 : Int) : Rat) < 1 / 2 := by
        push_cast
        linarith
      unfold roundHalfEven
      dsimp only
      -- a half and more goes up, and a half alone does because what is below is odd
      rw [hfloor, if_neg hrest, if_neg hodd, ite_self, sub_add_cancel]

namespace Decimal

/-- The number that a magnitude is written as with a fixed number of places. -/
def toPlaces (places : Nat) (q : Rat) : Rat :=
  (roundHalfEven (q * (10 : Rat) ^ places)).toNat * (10 : Rat) ^ (-(places : Int))

theorem toPlaces_eq (hq : 0 ≤ q) :
    toPlaces places q = roundHalfEven (q * (10 : Rat) ^ places) / (10 : Rat) ^ places := by
  have hnonneg : 0 ≤ roundHalfEven (q * (10 : Rat) ^ places) := by
    have hmono := roundHalfEven_mono (by push_cast; positivity :
      ((0 : Int) : Rat) ≤ q * (10 : Rat) ^ places)
    rwa [roundHalfEven_intCast] at hmono
  unfold toPlaces
  rw [← Int.cast_natCast, Int.toNat_of_nonneg hnonneg, zpow_neg, zpow_natCast, div_eq_mul_inv]

theorem abs_toPlaces_sub_le (hq : 0 ≤ q) :
    |toPlaces places q - q| ≤ 1 / (2 * (10 : Rat) ^ places) := by
  have hpos : (0 : Rat) < 10 ^ places := by positivity
  have hscale : toPlaces places q - q
      = (roundHalfEven (q * (10 : Rat) ^ places) - q * (10 : Rat) ^ places) / 10 ^ places := by
    rw [toPlaces_eq hq, sub_div, mul_div_cancel_right₀ _ hpos.ne']
  rw [hscale, abs_div, abs_of_pos hpos, div_le_iff₀ hpos]
  refine (abs_roundHalfEven_sub_le _).trans_eq ?_
  field_simp

theorem toPlaces_mono (hq : 0 ≤ q) (h : q ≤ x) : toPlaces places q ≤ toPlaces places x := by
  have hpos : (0 : Rat) < 10 ^ places := by positivity
  have hround := roundHalfEven_mono (mul_le_mul_of_nonneg_right h hpos.le)
  rw [toPlaces_eq hq, toPlaces_eq (hq.trans h)]
  exact div_le_div_of_nonneg_right (by exact_mod_cast hround) hpos.le

theorem toPlaces_natCast (places n : Nat) : toPlaces places n = n := by
  have hwhole : (n : Rat) * 10 ^ places = ((n * 10 ^ places : Nat) : Int) := by push_cast; rfl
  rw [toPlaces_eq (Nat.cast_nonneg n), div_eq_iff (by positivity), hwhole, roundHalfEven_intCast]

/-- No rounding to a place goes across a whole number. -/
theorem le_toPlaces (h : n ≤ q) : n ≤ toPlaces places q := by
  rw [← toPlaces_natCast places n]
  exact toPlaces_mono (Nat.cast_nonneg n) h

theorem toPlaces_le (hq : 0 ≤ q) (h : q ≤ n) : toPlaces places q ≤ n := by
  rw [← toPlaces_natCast places n]
  exact toPlaces_mono hq h

/-- An even number is reached from below where no more than half a place is missing. -/
theorem toPlaces_eq_iff (heven : n % 2 = 0) (hq : 0 ≤ q) (h : q ≤ n) :
    toPlaces places q = n ↔ (n : Rat) - 1 / (2 * (10 : Rat) ^ places) ≤ q := by
  have hpos : (0 : Rat) < 10 ^ places := by positivity
  have heven' : ((n * 10 ^ places : Nat) : Int) % 2 = 0 := by
    have hdvd : 2 ∣ n * 10 ^ places := Dvd.dvd.mul_right (Nat.dvd_of_mod_eq_zero heven) _
    omega
  have hscaled : q * (10 : Rat) ^ places ≤ (((n * 10 ^ places : Nat) : Int) : Rat) := by
    push_cast
    exact mul_le_mul_of_nonneg_right h hpos.le
  have hround := roundHalfEven_eq_iff_of_le heven' hscaled
  rw [toPlaces_eq hq, div_eq_iff hpos.ne']
  have hcast : (roundHalfEven (q * (10 : Rat) ^ places) : Rat) = n * 10 ^ places
      ↔ roundHalfEven (q * (10 : Rat) ^ places) = ((n * 10 ^ places : Nat) : Int) := by
    exact_mod_cast Iff.rfl
  have hhalf : ((n : Rat) - 1 / (2 * (10 : Rat) ^ places)) * 10 ^ places
      = n * 10 ^ places - 1 / 2 := by
    field_simp
  rw [hcast, hround, Int.cast_natCast, Nat.cast_mul, Nat.cast_pow, Nat.cast_ofNat, ← hhalf,
    mul_le_mul_iff_left₀ hpos]

end Decimal

/-! ## Units -/

theorem UnitFamily.base_even (family : UnitFamily) : family.base % 2 = 0 := by
  cases family <;> rfl

namespace ByteSize

variable {family : UnitFamily} {m : Rat} {s : ByteSize}

/-- The next unit is greater than the size. -/
theorem lt_power_unitExponent (h : unitExponent family m < 8) :
    m < (family.base : Rat) ^ (unitExponent family m + 1) := by
  by_contra hnot
  have hbase : (1 : Rat) ≤ family.base := by simpa using family.one_le_power 1
  -- with the next unit all smaller ones would be no greater than the size
  have hall : ∀ i ∈ List.range (unitExponent family m + 1),
      decide ((family.base : Rat) ^ (i + 1) ≤ m) = true := by
    intro i hi
    have hi' := List.mem_range.mp hi
    exact decide_eq_true ((pow_le_pow_right₀ hbase (by omega)).trans (not_lt.mp hnot))
  have hsplit : List.range unitLetters.length = List.range (unitExponent family m + 1)
      ++ (List.range (8 - (unitExponent family m + 1))).map (unitExponent family m + 1 + ·) := by
    rw [← List.range_add]
    refine congrArg List.range ?_
    have hletters : unitLetters.length = 8 := rfl
    omega
  have hlength : unitExponent family m + 1 ≤ unitExponent family m := by
    conv_rhs => unfold unitExponent
    rw [hsplit, List.takeWhile_append_of_pos hall, List.length_append, List.length_range]
    omega
  omega

/-- Below the first unit it is the byte. -/
theorem unitExponent_eq_zero (h : m < family.base) : unitExponent family m = 0 := by
  let fits (i : Nat) : Bool := decide ((family.base : Rat) ^ (i + 1) ≤ m)
  have hfirst : ¬ fits 0 = true := by simpa [fits] using h
  have hunits : List.range unitLetters.length = 0 :: (List.range 7).map Nat.succ :=
    List.range_succ_eq_map
  show ((List.range unitLetters.length).takeWhile fits).length = 0
  rw [hunits, List.takeWhile_cons_of_neg hfirst, List.length_nil]

theorem one_le_writtenMagnitude (hne : s.bytes ≠ 0) : 1 ≤ s.writtenMagnitude := by
  have hone : (1 : Nat) ≤ (s.bytes.natAbs : Rat) := by
    exact_mod_cast (by omega : 1 ≤ s.bytes.natAbs)
  have hround : (1 : Nat) ≤ s.writtenMagnitude := natCast_le_nearest (by norm_num) hone
  rwa [Nat.cast_one] at hround

theorem writtenMagnitude_le (s : ByteSize) : s.writtenMagnitude ≤ 2 ^ 63 := by
  have hlow := s.lower
  have hhigh := s.upper
  have hbytes : (s.bytes.natAbs : Rat) ≤ 2 ^ 63 := by
    exact_mod_cast (by omega : s.bytes.natAbs ≤ 2 ^ 63)
  rw [← Binary.nearest_two_pow]
  exact nearest_mono (by decide) (Nat.cast_nonneg _) hbytes

/-- **A size is written in the largest unit that is no greater than it.** -/
theorem unit_fits (family : UnitFamily) (hne : s.bytes ≠ 0) :
    unitExponent family s.writtenMagnitude ≤ 6
      ∧ (family.base : Rat) ^ unitExponent family s.writtenMagnitude ≤ s.writtenMagnitude
      ∧ s.writtenMagnitude
        < (family.base : Rat) ^ (unitExponent family s.writtenMagnitude + 1) := by
  have hfits := power_unitExponent_le family (one_le_writtenMagnitude hne)
  have hsmall : unitExponent family s.writtenMagnitude ≤ 6 := by
    by_contra hlarge
    have hthousand : (1000 : Rat) ≤ family.base := by cases family <;> norm_num [UnitFamily.base]
    have hpower : (2 : Rat) ^ 63 < 2 ^ 63 := by
      calc (2 : Rat) ^ 63 < 1000 ^ 7 := by norm_num
        _ ≤ 1000 ^ unitExponent family s.writtenMagnitude :=
          pow_le_pow_right₀ (by norm_num) (by omega)
        _ ≤ (family.base : Rat) ^ unitExponent family s.writtenMagnitude :=
          pow_le_pow_left₀ (by norm_num) hthousand _
        _ ≤ 2 ^ 63 := hfits.trans s.writtenMagnitude_le
    exact lt_irrefl _ hpower
  exact ⟨hsmall, hfits, lt_power_unitExponent (by omega)⟩

/-- A size below the first unit is written as it is. -/
theorem natAbs_lt_of_exponent (hne : s.bytes ≠ 0)
    (h : unitExponent family s.writtenMagnitude = 0) : s.bytes.natAbs < family.base := by
  by_contra hnot
  obtain ⟨-, -, hless⟩ := unit_fits family hne
  have hbase : family.base ≤ 2 ^ 53 := by cases family <;> norm_num [UnitFamily.base]
  have hround := natCast_le_nearest hbase (Nat.cast_le (α := Rat).mpr (not_lt.mp hnot))
  rw [h, zero_add, pow_one] at hless
  exact absurd hless (not_lt.mpr hround)

/-! ## The number in front of the unit -/

/-- The quotient by the unit, before it is rounded to places. -/
def writtenQuotient (family : UnitFamily) (s : ByteSize) : Rat :=
  double.nearest
    (s.writtenMagnitude / (family.base : Rat) ^ unitExponent family s.writtenMagnitude)

theorem writtenNumber_of_exponent (h : unitExponent family s.writtenMagnitude ≠ 0) :
    s.writtenNumber family places = Decimal.toPlaces places (s.writtenQuotient family) := by
  unfold writtenNumber writtenQuotient
  rcases hexponent : unitExponent family s.writtenMagnitude with _ | i
  · exact absurd hexponent h
  · rfl

theorem writtenQuotient_mem (family : UnitFamily) (hne : s.bytes ≠ 0) :
    1 ≤ s.writtenQuotient family ∧ s.writtenQuotient family ≤ family.base := by
  obtain ⟨-, hfits, hless⟩ := unit_fits family hne
  have hbase : family.base ≤ 2 ^ 53 := by cases family <;> norm_num [UnitFamily.base]
  have hunit : 0 < (family.base : Rat) ^ unitExponent family s.writtenMagnitude :=
    zero_lt_one.trans_le (family.one_le_power _)
  have hone : ((1 : Nat) : Rat)
      ≤ s.writtenMagnitude / (family.base : Rat) ^ unitExponent family s.writtenMagnitude := by
    rw [Nat.cast_one]
    exact (one_le_div hunit).mpr hfits
  have hmost : s.writtenMagnitude / (family.base : Rat) ^ unitExponent family s.writtenMagnitude
      ≤ family.base := by
    rw [div_le_iff₀ hunit, ← pow_succ']
    exact hless.le
  have hround : (1 : Nat) ≤ s.writtenQuotient family := natCast_le_nearest (by norm_num) hone
  rw [Nat.cast_one] at hround
  exact ⟨hround, nearest_le_natCast hbase ((Nat.cast_nonneg 1).trans hone) hmost⟩

/-- **The number lies between one and the base**, and is the base where half a place or less is
missing from it. -/
theorem writtenNumber_mem (family : UnitFamily) (places : Nat) (hne : s.bytes ≠ 0) :
    1 ≤ s.writtenNumber family places ∧ s.writtenNumber family places ≤ family.base
      ∧ (s.writtenNumber family places = family.base
        ↔ unitExponent family s.writtenMagnitude ≠ 0
          ∧ (family.base : Rat) - 1 / (2 * (10 : Rat) ^ places) ≤ s.writtenQuotient family) := by
  by_cases hexponent : unitExponent family s.writtenMagnitude = 0
  · have hbytes : s.writtenNumber family places = s.bytes.natAbs := by
      unfold writtenNumber
      rw [hexponent]
      rfl
    have hless := natAbs_lt_of_exponent hne hexponent
    rw [hbytes]
    refine ⟨?_, ?_, ?_⟩
    · exact_mod_cast (by omega : 1 ≤ s.bytes.natAbs)
    · exact_mod_cast hless.le
    · refine iff_of_false ?_ fun h => h.1 hexponent
      exact_mod_cast hless.ne
  · obtain ⟨hone, hmost⟩ := writtenQuotient_mem family hne
    have hnonneg : 0 ≤ s.writtenQuotient family := zero_le_one.trans hone
    rw [writtenNumber_of_exponent hexponent]
    refine ⟨?_, Decimal.toPlaces_le hnonneg hmost, ?_⟩
    · have hround : ((1 : Nat) : Rat) ≤ Decimal.toPlaces places (s.writtenQuotient family) :=
        Decimal.le_toPlaces (by simpa using hone)
      rwa [Nat.cast_one] at hround
    · rw [Decimal.toPlaces_eq_iff family.base_even hnonneg hmost]
      exact (and_iff_right hexponent).symm

/-- **A size is written as a number from one up to the base, in the largest unit that fits.** The
number is below the base, with one exception: where half of its last place or less is missing from
the base, it is rounded to the base itself. -/
theorem format_fits (family : UnitFamily) (places : Nat) (hne : s.bytes ≠ 0) :
    ∃ x : Quantity, x.Spells (s.format family places).toList
      ∧ (x.family = family ∨ x.exponent = 0)
      ∧ (family.base : Rat) ^ x.exponent ≤ double.nearest s.bytes.natAbs
      ∧ double.nearest s.bytes.natAbs < (family.base : Rat) ^ (x.exponent + 1)
      ∧ 1 ≤ x.number.toRat ∧ x.number.toRat ≤ family.base
      ∧ (x.number.toRat = family.base ↔ x.exponent ≠ 0
        ∧ (family.base : Rat) - 1 / (2 * (10 : Rat) ^ places)
          ≤ double.nearest (double.nearest s.bytes.natAbs / (family.base : Rat) ^ x.exponent)) := by
  obtain ⟨x, hx, -, hexponent, hfamily, hnumber⟩ := format_spells family places s
  obtain ⟨-, hfits, hless⟩ := unit_fits family hne
  obtain ⟨hone, hmost, hfull⟩ := writtenNumber_mem family places hne
  unfold writtenQuotient at hfull
  rw [← hexponent] at hfits hless hfull
  rw [← hnumber] at hone hmost hfull
  exact ⟨x, hx, hfamily.symm, hfits, hless, hone, hmost, hfull⟩

/-- One byte less than a mebibyte, with three places. -/
theorem format_fits_three : (clamp 1048575).bytes ≠ 0
    ∧ (clamp 1048575).format .binary 3 = "1023.999 KiB"
    ∧ ∃ x : Quantity, x.Spells "1023.999 KiB".toList ∧ x.exponent = 1
      ∧ 1 ≤ x.number.toRat ∧ x.number.toRat < UnitFamily.binary.base := by
  have hne : (clamp 1048575).bytes ≠ 0 := by decide
  have htext : (clamp 1048575).format .binary 3 = "1023.999 KiB" := by decide +kernel
  have hbytes : (clamp 1048575).bytes.natAbs = 1048575 := rfl
  have hmagnitude : double.nearest ((1048575 : Nat) : Rat) = 1048575 :=
    nearest_natCast (by norm_num)
  obtain ⟨x, hx, -, hfits, hless, hone, hmost, hfull⟩ := format_fits .binary 3 hne
  rw [hbytes, hmagnitude, UnitFamily.binary_power] at hfits hless hfull
  have hexponent : x.exponent = 1 := by
    have hlow : ¬ 2 ≤ x.exponent := fun h => absurd hfits (not_le.mpr
      (lt_of_lt_of_le (by norm_num) (pow_le_pow_right₀ one_le_two (by omega : 20 ≤ _))))
    have hhigh : x.exponent ≠ 0 := fun h => by norm_num [h] at hless
    omega
  refine ⟨hne, htext, x, htext ▸ hx, hexponent, hone, hmost.lt_of_ne fun heq => ?_⟩
  have hnear := (hfull.mp heq).2
  have hquotient : double.nearest (1048575 / 2 ^ 10) = 1048575 / 2 ^ 10 :=
    nearest_div_two_pow (n := 1048575) (by norm_num) (by norm_num)
  rw [hexponent, mul_one, hquotient] at hnear
  norm_num [UnitFamily.base] at hnear

/-- **The number may be the base**: with two places the same size is written as all of a mebibyte in
the unit below it. -/
theorem format_full : (clamp 1048575).format .binary 2 = "1024.00 KiB"
    ∧ ∃ x : Quantity, x.Spells "1024.00 KiB".toList ∧ x.family = .binary ∧ x.exponent = 1
      ∧ x.number.toRat = UnitFamily.binary.base := by
  let x : Quantity := ⟨false, ['1', '0', '2', '4'], ['0', '0'], .binary, 1⟩
  have hbody : x.SpellsBody (['1', '0', '2', '4', '.', '0', '0'] ++ ([' '] ++ ['K', 'i', 'B'])) :=
    ⟨List.cons_ne_nil _ _, List.all_eq_true.mp rfl, List.all_eq_true.mp rfl, _, [' '], _,
      .pointed _ _, List.all_eq_true.mp rfl, .binary (i := 0) rfl (Or.inl rfl) (Or.inr rfl), rfl⟩
  have hnumber : x.number.toRat = UnitFamily.binary.base := by
    have hdigits : x.number = ⟨102400, -2⟩ := rfl
    rw [hdigits]
    norm_num [Decimal.toRat, UnitFamily.base]
  exact ⟨by decide +kernel, x, hbody.spells .none, rfl, rfl, hnumber⟩

end ByteSize

end PacedNet
