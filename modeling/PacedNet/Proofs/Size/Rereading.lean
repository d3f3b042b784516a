import PacedNet.Proofs.Size.Fitting

/-!
# How near a displayed size is read

A size is displayed with two places, and between the size and what its text is read as there are six
steps: the size and its quotient are rounded to the format, the quotient is rounded to two places,
the number read and its product with the unit are rounded to the format again, and what is behind
the point of the product is cut off. The two places cost half a hundredth of the unit. The four
roundings to the format are off by a few parts in two to the fifty-third, and so much less than that
(`abs_rereadMagnitude_sub_le`), and the last step takes less than a byte.

The number is one at least, so that nothing is read as zero that is not. What exceeds the range is
cut back to it, which only brings it nearer (`parse_display_near`): close to the ends of the range a
size is displayed as `8.00 EiB`, and read as the greatest or the least there is.
-/

namespace PacedNet

open BinaryFormat

variable {x : Rat}

/-- From one on, what rounding to the format takes or adds is a fraction of the number. -/
theorem abs_nearest_sub_le_of_one_le (hx : 1 ≤ x) : |double.nearest x - x| ≤ x / 2 ^ 53 := by
  have hleast : (2 : Rat) ^ (double.minExp + double.precision - 1) ≤ 2 ^ (0 : Int) :=
    zpow_le_zpow_right₀ one_le_two (by decide)
  exact abs_nearest_sub_le_relative (hleast.trans (by simpa using hx))

namespace ByteSize

variable {s : ByteSize}

/-- The magnitude that a displayed size is read as, before it is cut off at its point and at the
ends of the range. -/
def rereadMagnitude (s : ByteSize) : Rat :=
  double.nearest (double.nearest (s.writtenNumber .binary 2) * 1024 ^ s.displayedExponent)

/-- The bytes that a displayed size is read as. -/
def rereadBytes (s : ByteSize) : Int :=
  max (-9223372036854775808) (min 9223372036854775807
    (if s.bytes < 0 then -s.rereadMagnitude.floor else s.rereadMagnitude.floor))

/-- What a size is displayed as, and what that is read as. -/
theorem display_reread (hne : s.bytes ≠ 0) :
    ∃ x : Quantity, x.Spells s.display.toList ∧ (x.family = .binary ∨ x.exponent = 0)
      ∧ x.exponent = s.displayedExponent ∧ x.size.bytes = s.rereadBytes := by
  obtain ⟨x, hx, hnegative, hexponent, hfamily, hnumber⟩ := format_spells .binary 2 s
  obtain ⟨hone, hmost, -⟩ := writtenNumber_mem .binary 2 hne
  have hunit : (x.family.base : Rat) ^ x.exponent = 1024 ^ s.displayedExponent := by
    rw [displayedExponent, ← hexponent]
    rcases hfamily with hzero | hfamily
    · rw [hzero, pow_zero, pow_zero]
    · rw [hfamily]
      rfl
  -- a power of 1024 is a value of the format
  have hvalue : double.nearest ((x.family.base : Rat) ^ x.exponent)
      = 1024 ^ s.displayedExponent := by
    rw [hunit]
    exact UnitFamily.nearest_binary _
  have hproduct : x.product = s.rereadMagnitude := by
    unfold Quantity.product rereadMagnitude
    rw [hvalue, hnumber]
  have hnumber' : x.number.toRat ≤ (1024 : Nat) := hnumber ▸ hmost
  have hrange : double.nearest x.number.toRat
      * double.nearest ((x.family.base : Rat) ^ x.exponent) ≤ 2 ^ 118 := by
    have hround := nearest_le_natCast (by norm_num) x.number.toRat_nonneg hnumber'
    have hpower := x.family.power_le hx.exponent_le
    rw [hvalue, ← hunit]
    calc double.nearest x.number.toRat * (x.family.base : Rat) ^ x.exponent
        ≤ 1024 * 2 ^ 80 := mul_le_mul (by exact_mod_cast hround) hpower
          (zero_le_one.trans (x.family.one_le_power _)) (by norm_num)
      _ ≤ 2 ^ 118 := by norm_num
  have hbytes := Quantity.size_bytes hx.exponent_le
    (hnumber'.trans (by norm_num)) hrange
  rw [hnegative, truncate_signed _ x.product_nonneg, hproduct] at hbytes
  refine ⟨x, hx, hfamily.symm, hexponent, hbytes.trans ?_⟩
  unfold rereadBytes
  by_cases hneg : s.bytes < 0
  · rw [decide_eq_true hneg, if_pos rfl, if_pos hneg]
  · rw [decide_eq_false hneg, if_neg (by decide), if_neg hneg]

/-! ## How far off the magnitude is -/

/-- The number, before and after it is read, and as many units as the size is. -/
theorem abs_number_sub_le (hne : s.bytes ≠ 0) (hexponent : s.displayedExponent ≠ 0) :
    |double.nearest (s.writtenNumber .binary 2) - s.bytes.natAbs / 1024 ^ s.displayedExponent|
      ≤ 1 / 200 + 1 / 2 ^ 40 := by
  obtain ⟨-, -, hless⟩ := unit_fits .binary hne
  obtain ⟨hqone, hqmost⟩ := writtenQuotient_mem .binary hne
  obtain ⟨hone, hmost, -⟩ := writtenNumber_mem .binary 2 hne
  have hpos : (0 : Rat) < 1024 ^ s.displayedExponent := by positivity
  have hbytes : (1 : Rat) ≤ s.bytes.natAbs := by exact_mod_cast (by omega : 1 ≤ s.bytes.natAbs)
  have hbase : ((UnitFamily.binary.base : Nat) : Rat) = 1024 := rfl
  rw [hbase] at hqmost hmost
  -- the size itself, counted in units
  have hsize : |s.writtenMagnitude / 1024 ^ s.displayedExponent
      - s.bytes.natAbs / 1024 ^ s.displayedExponent|
        ≤ s.bytes.natAbs / 1024 ^ s.displayedExponent / 2 ^ 53 := by
    rw [← sub_div, abs_div, abs_of_pos hpos, div_right_comm]
    exact div_le_div_of_nonneg_right (abs_nearest_sub_le_of_one_le hbytes) hpos.le
  have hcount : s.writtenMagnitude / 1024 ^ s.displayedExponent < 1024 := by
    rw [div_lt_iff₀ hpos, ← pow_succ']
    exact hless
  have hcountone : 1 ≤ s.writtenMagnitude / 1024 ^ s.displayedExponent :=
    (one_le_div hpos).mpr (power_unitExponent_le .binary (one_le_writtenMagnitude hne))
  have hquotient : |s.writtenQuotient .binary - s.writtenMagnitude / 1024 ^ s.displayedExponent|
      ≤ s.writtenMagnitude / 1024 ^ s.displayedExponent / 2 ^ 53 :=
    abs_nearest_sub_le_of_one_le hcountone
  have hplaces : |s.writtenNumber .binary 2 - s.writtenQuotient .binary| ≤ 1 / 200 := by
    rw [writtenNumber_of_exponent hexponent]
    refine (Decimal.abs_toPlaces_sub_le (zero_le_one.trans hqone)).trans_eq ?_
    norm_num
  have hread := abs_nearest_sub_le_of_one_le hone
  generalize (s.bytes.natAbs : Rat) / 1024 ^ s.displayedExponent = size at *
  generalize s.writtenMagnitude / 1024 ^ s.displayedExponent = count at *
  obtain ⟨hsize₁, hsize₂⟩ := abs_le.mp hsize
  obtain ⟨hquotient₁, hquotient₂⟩ := abs_le.mp hquotient
  obtain ⟨hplaces₁, hplaces₂⟩ := abs_le.mp hplaces
  obtain ⟨hread₁, hread₂⟩ := abs_le.mp hread
  rw [abs_le]
  constructor <;> linarith

/-- **A displayed size is read as a magnitude half a hundredth of the unit away**, and a little more
for the rounding on the way. -/
theorem abs_rereadMagnitude_sub_le (hne : s.bytes ≠ 0) (hexponent : s.displayedExponent ≠ 0) :
    |s.rereadMagnitude - s.bytes.natAbs| ≤ 1024 ^ s.displayedExponent / 100 := by
  have hnumber := abs_number_sub_le hne hexponent
  obtain ⟨hone, hmost, -⟩ := writtenNumber_mem .binary 2 hne
  have hpos : (1 : Rat) ≤ 1024 ^ s.displayedExponent := one_le_pow₀ (by norm_num)
  have hreadone : (1 : Nat) ≤ double.nearest (s.writtenNumber .binary 2) :=
    natCast_le_nearest (by norm_num) (by simpa using hone)
  have hreadmost : double.nearest (s.writtenNumber .binary 2) ≤ (1024 : Nat) :=
    nearest_le_natCast (by norm_num) (zero_le_one.trans hone) hmost
  have hunits : (s.bytes.natAbs : Rat)
      = s.bytes.natAbs / 1024 ^ s.displayedExponent * 1024 ^ s.displayedExponent :=
    (div_mul_cancel₀ _ (by positivity)).symm
  unfold rereadMagnitude
  rw [hunits]
  push_cast at hreadone hreadmost
  generalize double.nearest (s.writtenNumber .binary 2) = number at *
  generalize (s.bytes.natAbs : Rat) / 1024 ^ s.displayedExponent = size at *
  generalize (1024 : Rat) ^ s.displayedExponent = unit at *
  have hproduct := abs_nearest_sub_le_of_one_le (one_le_mul_of_one_le_of_one_le hreadone hpos)
  have hscaled : |number * unit - size * unit| ≤ (1 / 200 + 1 / 2 ^ 40) * unit := by
    rw [← sub_mul, abs_mul, abs_of_nonneg (zero_le_one.trans hpos)]
    exact mul_le_mul_of_nonneg_right hnumber (zero_le_one.trans hpos)
  have hmany : number * unit ≤ 1024 * unit := mul_le_mul_of_nonneg_right hreadmost (by linarith)
  obtain ⟨hproduct₁, hproduct₂⟩ := abs_le.mp hproduct
  obtain ⟨hscaled₁, hscaled₂⟩ := abs_le.mp hscaled
  rw [abs_le]
  constructor <;> linarith

theorem one_le_rereadMagnitude (hne : s.bytes ≠ 0) : 1 ≤ s.rereadMagnitude := by
  obtain ⟨hone, -, -⟩ := writtenNumber_mem .binary 2 hne
  have hunit : (1 : Rat) ≤ 1024 ^ s.displayedExponent := one_le_pow₀ (by norm_num)
  have hread : (1 : Nat) ≤ double.nearest (s.writtenNumber .binary 2) :=
    natCast_le_nearest (by norm_num) (by simpa using hone)
  rw [Nat.cast_one] at hread
  have hproduct : (1 : Nat) ≤ s.rereadMagnitude :=
    natCast_le_nearest (by norm_num)
      (by simpa using one_le_mul_of_one_le_of_one_le hread hunit)
  rwa [Nat.cast_one] at hproduct

theorem one_le_floor (hne : s.bytes ≠ 0) : 1 ≤ s.rereadMagnitude.floor :=
  Rat.le_floor_iff.mpr (by simpa using one_le_rereadMagnitude hne)

theorem sign_rereadBytes (hne : s.bytes ≠ 0) : s.rereadBytes.sign = s.bytes.sign := by
  have hpositive := one_le_floor hne
  unfold rereadBytes
  split_ifs with hneg
  · rw [Int.sign_eq_neg_one_of_neg hneg, Int.sign_eq_neg_one_of_neg (by omega)]
  · rw [Int.sign_eq_one_of_pos (by omega), Int.sign_eq_one_of_pos (by omega)]

/-- Cutting back to the range brings what is read nearer to the size, which lies in it. -/
theorem natAbs_rereadBytes_sub_le (hne : s.bytes ≠ 0) :
    (s.rereadBytes - s.bytes).natAbs ≤ (s.rereadMagnitude.floor - s.bytes.natAbs).natAbs := by
  have hlow := s.lower
  have hhigh := s.upper
  have hpositive := one_le_floor hne
  unfold rereadBytes
  split_ifs <;> omega

theorem abs_rereadBytes_sub_le (hne : s.bytes ≠ 0) (hexponent : s.displayedExponent ≠ 0) :
    |(s.rereadBytes : Rat) - s.bytes| ≤ 1024 ^ s.displayedExponent / 100 + 1 := by
  have hfloor : |((s.rereadMagnitude.floor - s.bytes.natAbs : Int) : Rat)|
      ≤ 1024 ^ s.displayedExponent / 100 + 1 := by
    obtain ⟨hless, hmore⟩ := abs_le.mp (abs_rereadMagnitude_sub_le hne hexponent)
    have hbelow := Rat.floor_le s.rereadMagnitude
    have habove := Rat.lt_floor_add_one s.rereadMagnitude
    rw [Int.cast_add, Int.cast_one] at habove
    rw [Int.cast_sub, Int.cast_natCast, abs_le]
    constructor <;> linarith
  refine le_trans ?_ hfloor
  rw [← Int.cast_sub, ← Int.cast_abs, ← Int.cast_abs, Int.abs_eq_natAbs, Int.abs_eq_natAbs]
  exact_mod_cast natAbs_rereadBytes_sub_le hne

/-! ## The ends of the range -/

theorem le_writtenMagnitude_of_large (h : 2 ^ 63 - 2 ^ 52 ≤ s.bytes.natAbs) :
    (2 : Rat) ^ 63 - 2 ^ 52 ≤ s.writtenMagnitude := by
  have hsignificand : (2 : Rat) ^ 63 - 2 ^ 52 = (2047 : Nat) * 2 ^ (52 : Int) := by norm_num
  have hvalue : double.nearest (2 ^ 63 - 2 ^ 52) = 2 ^ 63 - 2 ^ 52 := by
    rw [hsignificand]
    exact nearest_significand (by decide) (by decide) (by decide)
  have hbytes : (2 : Rat) ^ 63 - 2 ^ 52 ≤ s.bytes.natAbs := by
    have : ((2 ^ 63 - 2 ^ 52 : Nat) : Rat) ≤ s.bytes.natAbs := by exact_mod_cast h
    norm_num at this ⊢
    exact this
  have hround := nearest_mono (F := .double) (by decide) (by norm_num) hbytes
  rwa [hvalue] at hround

theorem displayedExponent_of_large (h : 2 ^ 63 - 2 ^ 52 ≤ s.bytes.natAbs) :
    s.displayedExponent = 6 := by
  have hne : s.bytes ≠ 0 := by omega
  obtain ⟨hsmall, -, hless⟩ := unit_fits .binary hne
  rw [UnitFamily.binary_power] at hless
  have hpower : (2 : Rat) ^ 60 < 2 ^ (10 * (unitExponent .binary s.writtenMagnitude + 1)) := by
    refine lt_of_le_of_lt ?_ hless
    refine le_trans ?_ (le_writtenMagnitude_of_large h)
    norm_num
  have hlt := (pow_lt_pow_iff_right₀ one_lt_two).mp hpower
  unfold displayedExponent
  omega

theorem le_writtenQuotient_of_large (h : 2 ^ 63 - 2 ^ 52 ≤ s.bytes.natAbs) :
    (8 : Rat) - 1 / 2 ^ 8 ≤ s.writtenQuotient .binary := by
  have hsignificand : (8 : Rat) - 1 / 2 ^ 8 = (2047 : Nat) / 2 ^ 8 := by norm_num
  have hvalue : double.nearest (8 - 1 / 2 ^ 8) = 8 - 1 / 2 ^ 8 := by
    rw [hsignificand]
    exact nearest_div_two_pow (by norm_num) (by norm_num)
  have hcount : (8 : Rat) - 1 / 2 ^ 8 ≤ s.writtenMagnitude / (UnitFamily.binary.base : Rat)
      ^ unitExponent .binary s.writtenMagnitude := by
    show _ ≤ _ / (UnitFamily.binary.base : Rat) ^ s.displayedExponent
    rw [UnitFamily.binary_power, displayedExponent_of_large h, le_div_iff₀ (by positivity)]
    refine le_trans ?_ (le_writtenMagnitude_of_large h)
    norm_num
  have hround := nearest_mono (F := .double) (by decide) (by norm_num) hcount
  rwa [hvalue] at hround

/-- Close to the ends of the range the number is eight, and the unit is the exbibyte. -/
theorem two_pow_le_rereadMagnitude (h : 2 ^ 63 - 2 ^ 52 ≤ s.bytes.natAbs) :
    2 ^ 63 ≤ s.rereadMagnitude := by
  have hexponent := displayedExponent_of_large h
  have hnumber : (8 : Nat) ≤ s.writtenNumber .binary 2 := by
    have hne : unitExponent .binary s.writtenMagnitude ≠ 0 := by
      show s.displayedExponent ≠ 0
      omega
    have hplaces : Decimal.toPlaces 2 (8 - 1 / 2 ^ 8) = (8 : Nat) :=
      (Decimal.toPlaces_eq_iff rfl (by norm_num) (by norm_num)).mpr (by norm_num)
    rw [writtenNumber_of_exponent hne, ← hplaces]
    exact Decimal.toPlaces_mono (by norm_num) (le_writtenQuotient_of_large h)
  have hread : (8 : Nat) ≤ double.nearest (s.writtenNumber .binary 2) :=
    natCast_le_nearest (by norm_num) hnumber
  unfold rereadMagnitude
  rw [hexponent, ← Binary.nearest_two_pow]
  refine nearest_mono (by decide) (by norm_num) ?_
  push_cast at hread
  linarith

theorem rereadBytes_of_large (h : 2 ^ 63 - 2 ^ 52 ≤ s.bytes) :
    s.rereadBytes = greatest.bytes := by
  have hfloor : 2 ^ 63 ≤ s.rereadMagnitude.floor :=
    Rat.le_floor_iff.mpr (by exact_mod_cast two_pow_le_rereadMagnitude (s := s) (by omega))
  rw [rereadBytes, if_neg (by omega), greatest_bytes]
  omega

theorem rereadBytes_of_small (h : s.bytes ≤ 2 ^ 52 - 2 ^ 63) : s.rereadBytes = least.bytes := by
  have hfloor : 2 ^ 63 ≤ s.rereadMagnitude.floor :=
    Rat.le_floor_iff.mpr (by exact_mod_cast two_pow_le_rereadMagnitude (s := s) (by omega))
  rw [rereadBytes, if_pos (by omega), least_bytes]
  omega

/-- **A displayed size is read as a size close by.** Its text is read, whatever the size is, and
with the sign that it has. What is read is off by a hundredth of the displayed unit at most, and one
byte, and it is the size itself below the first unit. At the ends of the range it is the end. -/
theorem parse_display_near (s : ByteSize) :
    ∃ (x : Quantity) (r : ByteSize), x.Spells s.display.toList
      ∧ (x.family = .binary ∨ x.exponent = 0)
      ∧ parse s.display = .ok r ∧ r.bytes.sign = s.bytes.sign
      ∧ |(r.bytes : Rat) - s.bytes| ≤ 1024 ^ x.exponent / 100 + 1
      ∧ (s.bytes.natAbs < 1024 → r = s)
      ∧ (2 ^ 63 - 2 ^ 52 ≤ s.bytes → r = greatest)
      ∧ (s.bytes ≤ 2 ^ 52 - 2 ^ 63 → r = least) := by
  by_cases hsmall : s.bytes.natAbs < 1024
  · have hfits : s.bytes.natAbs ≤ 2 ^ 53 := by omega
    have hexponent : s.displayedExponent = 0 := by
      refine unitExponent_eq_zero ?_
      rw [writtenMagnitude_eq hfits]
      exact_mod_cast hsmall
    obtain ⟨x, hx, -, hunit, -, -⟩ := display_spells hfits
    have hread := parse_display hfits (by rw [hexponent]; simp)
    refine ⟨x, s, hx, hunit, hread, rfl, ?_, fun _ => rfl, fun h => ?_, fun h => ?_⟩
    · rw [sub_self, abs_zero]
      positivity
    · omega
    · omega
  · have hne : s.bytes ≠ 0 := by omega
    have hexponent : s.displayedExponent ≠ 0 := by
      intro hzero
      exact hsmall (natAbs_lt_of_exponent hne hzero)
    obtain ⟨x, hx, hunit, hdisplayed, hbytes⟩ := display_reread hne
    refine ⟨x, x.size, hx, hunit, parse_eq_ok.mpr ⟨x, hx, rfl⟩, ?_, ?_, fun h => absurd h hsmall,
      fun h => eq_of_bytes ?_, fun h => eq_of_bytes ?_⟩
    · rw [hbytes, sign_rereadBytes hne]
    · rw [hbytes, hdisplayed]
      exact abs_rereadBytes_sub_le hne hexponent
    · rw [hbytes, rereadBytes_of_large h]
    · rw [hbytes, rereadBytes_of_small h]

end ByteSize

end PacedNet
