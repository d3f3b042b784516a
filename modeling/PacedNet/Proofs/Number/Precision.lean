import PacedNet.Proofs.Number.Arithmetic

/-!
# What a binary format can hold

A number is a value of a format if its significant bits fit the precision and its last place is not
below the format's (`nearest_significand`); so every whole number up to two to the precision is one,
and so is such a number divided by a power of two. Any other number is rounded by half of its last
place at most, which is a fraction of the number that depends on the precision alone, unless the
number is too small to fill it (`abs_nearest_sub_le_relative`). What arithmetic rounds is a number of the
format, and so is what any bit pattern stands for (`Binary.isValue_ofBits`).
-/

namespace PacedNet

namespace BinaryFormat

variable {F : BinaryFormat} {x : Rat} {n : Nat} {e : Int}

theorem lastPlace_le (hx : 0 < x) (h : x < 2 ^ (e + F.precision)) (he : F.minExp ≤ e) :
    F.lastPlace x ≤ e := by
  have hlog : Int.log 2 x < e + F.precision := (Int.lt_zpow_iff_log_lt one_lt_two hx).mp h
  rw [lastPlace_eq hx]
  omega

/-- **Bits that fit the precision are kept.** -/
theorem nearest_significand (hprecision : 0 < F.precision) (hn : n ≤ 2 ^ F.precision)
    (he : F.minExp ≤ e) : F.nearest (n * 2 ^ e) = n * 2 ^ e := by
  have hunit := two_zpow_pos e
  rcases n.eq_zero_or_pos with rfl | hpos
  · rw [Nat.cast_zero, zero_mul, nearest_zero]
  have hx : (0 : Rat) < n * 2 ^ e := mul_pos (by exact_mod_cast hpos) hunit
  refine nearest_of_onGrid hx ?_
  have hscaled : ((2 : Rat) ^ F.precision) * 2 ^ e = 2 ^ (e + F.precision) := by
    rw [zpow_add₀ (by norm_num), zpow_natCast, mul_comm]
  rcases hn.eq_or_lt with rfl | hlt
  · -- the power of two above all of them has a coarser grid, and lies on it
    rw [Nat.cast_pow, Nat.cast_two, hscaled]
    refine onGrid_zpow ?_
    rw [lastPlace_of_mem (e := e + F.precision) le_rfl (zpow_lt_zpow_right₀ one_lt_two (by omega))]
    omega
  · have hbelow : (n : Rat) * 2 ^ e < 2 ^ (e + F.precision) := by
      rw [← hscaled]
      exact mul_lt_mul_of_pos_right (by exact_mod_cast hlt) hunit
    exact OnGrid.of_le ⟨n, by simp⟩ (lastPlace_le hx hbelow he)

/-- A number is off by half of its last place at most. -/
theorem abs_nearest_sub_le_half (hx : 0 < x) : |F.nearest x - x| ≤ 2 ^ F.lastPlace x / 2 := by
  have hunit := two_zpow_pos (F.lastPlace x)
  rw [nearest_eq hx]
  generalize (2 : Rat) ^ F.lastPlace x = unit at hunit ⊢
  have hscale : (roundHalfEven (x / unit) : Rat) * unit - x
      = (roundHalfEven (x / unit) - x / unit) * unit := by
    rw [sub_mul, div_mul_cancel₀ _ hunit.ne']
  rw [hscale, abs_mul, abs_of_pos hunit]
  calc |(roundHalfEven (x / unit) : Rat) - x / unit| * unit
      ≤ 1 / 2 * unit := mul_le_mul_of_nonneg_right (abs_roundHalfEven_sub_le _) hunit.le
    _ = unit / 2 := by ring

/-- **A number that fills the precision is off by a fraction of itself.** -/
theorem abs_nearest_sub_le_relative (hx : 2 ^ (F.minExp + F.precision - 1) ≤ x) :
    |F.nearest x - x| ≤ x / 2 ^ F.precision := by
  have hpos : 0 < x := (two_zpow_pos _).trans_le hx
  refine (abs_nearest_sub_le_half hpos).trans ?_
  have hlog : F.minExp + F.precision - 1 ≤ Int.log 2 x :=
    (Int.zpow_le_iff_le_log one_lt_two hpos).mp hx
  have hplace : F.lastPlace x = Int.log 2 x + 1 - F.precision := by
    rw [lastPlace_eq hpos]
    omega
  rw [hplace, zpow_sub₀ (by norm_num), zpow_natCast, div_right_comm]
  refine div_le_div_of_nonneg_right ?_ (by positivity)
  calc (2 : Rat) ^ (Int.log 2 x + 1) / 2 = 2 ^ Int.log 2 x := by
        rw [zpow_add₀ (by norm_num), zpow_one, mul_div_cancel_right₀ _ (by norm_num)]
    _ ≤ x := Int.zpow_log_le_self one_lt_two hpos

/-! ## Whole numbers and their parts -/

theorem nearest_natCast (hn : n ≤ 2 ^ 53) : double.nearest n = n := by
  have h := nearest_significand (F := .double) (e := 0) (by decide) hn (by decide)
  rwa [zpow_zero, mul_one] at h

/-- A whole number divided by a power of two. -/
theorem nearest_div_two_pow (hn : n ≤ 2 ^ 53) {k : Nat} (hk : k ≤ 1074) :
    double.nearest (n / 2 ^ k) = n / 2 ^ k := by
  have hleast : double.minExp = -1074 := rfl
  have h := nearest_significand (F := .double) (e := -k) (by decide) hn (by omega)
  rwa [zpow_neg, zpow_natCast, ← div_eq_mul_inv] at h

theorem natCast_le_nearest (hn : n ≤ 2 ^ 53) (h : n ≤ x) : n ≤ double.nearest x := by
  rw [← nearest_natCast hn]
  exact nearest_mono (by decide) (Nat.cast_nonneg n) h

theorem nearest_le_natCast (hn : n ≤ 2 ^ 53) (hx : 0 ≤ x) (h : x ≤ n) : double.nearest x ≤ n := by
  rw [← nearest_natCast hn]
  exact nearest_mono (by decide) hx h

/-- Where a step is a half at least, what is missing from a whole number may be made up for. -/
theorem natCast_le_nearest_of_lt (hlow : 2 ^ 52 ≤ n) (hhigh : n ≤ 2 ^ 53) (h : n < x + 1 / 4) :
    n ≤ double.nearest x := by
  have hlow' : (2 : Rat) ^ 52 ≤ n := by exact_mod_cast hlow
  have hx : (2 : Rat) ^ (51 : Int) ≤ x := by
    have hpower : (2 : Rat) ^ (51 : Int) + 1 ≤ 2 ^ 52 := by norm_num
    linarith
  have hpos : 0 < x := (two_zpow_pos 51).trans_le hx
  rcases le_or_gt (n : Rat) x with hle | hlt
  · exact natCast_le_nearest hhigh hle
  · have herror :=
      abs_nearest_sub_le (by decide) hpos.le (Nat.cast_nonneg n) (nearest_natCast hhigh)
    rw [abs_of_pos (sub_pos.mpr hlt)] at herror
    have hplace : -1 ≤ double.lastPlace x := by
      have hlog : 51 ≤ Int.log 2 x := (Int.zpow_le_iff_le_log one_lt_two hpos).mp hx
      have hprecision : double.precision = 53 := rfl
      rw [lastPlace_eq hpos]
      omega
    obtain ⟨k, hk⟩ := (onGrid_nearest hpos).of_le hplace
    rw [hk, zpow_neg_one] at herror ⊢
    -- twice the number is whole, and it lies above twice the other less one
    have habove : (2 * n : Int) - 1 < k := by
      have : (2 * n : Rat) - 1 < k := by linarith [(abs_le.mp herror).1]
      exact_mod_cast this
    have habove' : (2 * n : Rat) ≤ k := by exact_mod_cast (by omega : (2 * n : Int) ≤ k)
    linarith

/-! ## Decimals far out -/

theorem nearest_eq_zero (hprecision : 0 < F.precision) (hx : 0 ≤ x) (h : x < 2 ^ (F.minExp - 1)) :
    F.nearest x = 0 := by
  rcases hx.eq_or_lt with rfl | hpos
  · exact nearest_zero
  have hunit := two_zpow_pos (F.minExp - 1)
  have hplace : F.lastPlace x = F.minExp := by
    refine le_antisymm (lastPlace_le hpos (h.trans_le ?_) le_rfl) ?_
    · exact zpow_le_zpow_right₀ one_le_two (by omega)
    · rw [lastPlace_eq hpos]
      exact le_max_right _ _
  obtain ⟨k, hk⟩ := hplace ▸ onGrid_nearest (F := F) hpos
  have herror := abs_nearest_sub_le hprecision hx le_rfl (nearest_zero (F := F))
  rw [zero_sub, abs_neg, abs_of_pos hpos] at herror
  have hnonneg := nearest_nonneg F hx
  have hgrid : (2 : Rat) ^ F.minExp = 2 * 2 ^ (F.minExp - 1) := by
    rw [zpow_sub_one₀ (by norm_num)]
    ring
  have hk0 : k = 0 := by
    rw [hk, hgrid] at herror hnonneg
    have hlow : (-1 : Rat) < k := by nlinarith
    have hhigh : (k : Rat) < 1 := by nlinarith [(abs_le.mp herror).2]
    have hlow' : (-1 : Int) < k := by exact_mod_cast hlow
    have hhigh' : k < 1 := by exact_mod_cast hhigh
    omega
  rw [hk, hk0, Int.cast_zero, zero_mul]

end BinaryFormat

theorem two_pow_le_ten_pow : (2 : Rat) ^ 1200 ≤ 10 ^ 400 := by
  calc (2 : Rat) ^ 1200 = (2 ^ 3) ^ 400 := by rw [← pow_mul]
    _ ≤ 10 ^ 400 := pow_le_pow_left₀ (by norm_num) (by norm_num) _

theorem Decimal.two_pow_le_toRat {d : Decimal} (hdigits : d.digits ≠ 0) (h : 400 < d.exponent) :
    (2 : Rat) ^ 1024 ≤ d.toRat := by
  have hpos : (1 : Rat) ≤ d.digits := by exact_mod_cast Nat.one_le_iff_ne_zero.mpr hdigits
  have hpower : (10 : Rat) ^ (400 : Int) ≤ 10 ^ d.exponent :=
    zpow_le_zpow_right₀ (by norm_num) h.le
  calc (2 : Rat) ^ 1024 ≤ 2 ^ 1200 := pow_le_pow_right₀ (by norm_num) (by norm_num)
    _ ≤ 10 ^ (400 : Int) := two_pow_le_ten_pow
    _ ≤ 1 * 10 ^ d.exponent := by rwa [one_mul]
    _ ≤ d.digits * 10 ^ d.exponent :=
      mul_le_mul_of_nonneg_right hpos (zpow_nonneg (by norm_num) _)

theorem Decimal.toRat_lt_two_zpow {d : Decimal}
    (h : d.exponent + (decimalLength d.digits : Int) < -400) :
    d.toRat < 2 ^ (BinaryFormat.double.minExp - 1) := by
  have hdigits : d.digits < 10 ^ decimalLength d.digits :=
    (Nat.length_toDigits_le_iff (by decide) Nat.length_toDigits_pos).mp le_rfl
  have hdigits' : (d.digits : Rat) < 10 ^ (decimalLength d.digits : Int) := by
    exact_mod_cast hdigits
  calc d.digits * (10 : Rat) ^ d.exponent
      < 10 ^ (decimalLength d.digits : Int) * 10 ^ d.exponent :=
        mul_lt_mul_of_pos_right hdigits' (zpow_pos (by norm_num) _)
    _ = 10 ^ (d.exponent + decimalLength d.digits) := by
        rw [← zpow_add₀ (by norm_num), add_comm]
    _ ≤ 10 ^ (-(400 : Nat) : Int) := zpow_le_zpow_right₀ (by norm_num) h.le
    _ ≤ 2 ^ (-(1200 : Nat) : Int) := by
        rw [zpow_neg, zpow_neg, zpow_natCast, zpow_natCast]
        exact inv_anti₀ (by positivity) two_pow_le_ten_pow
    _ ≤ 2 ^ (BinaryFormat.double.minExp - 1) := zpow_le_zpow_right₀ one_le_two (by decide)

/-- **A decimal is read as what its exact value is rounded to**, however far out it is. -/
theorem Binary.ofDecimal_eq (negative : Bool) (d : Decimal) :
    (ofDecimal negative d : Binary64) = ofExact negative d.toRat := by
  unfold ofDecimal
  split_ifs with hzero hlarge hsmall
  · have hvalue : d.toRat = 0 := by rw [Decimal.toRat, hzero, Nat.cast_zero, zero_mul]
    rw [hvalue, ofExact_eq (by rw [BinaryFormat.nearest_zero]; decide +kernel),
      BinaryFormat.nearest_zero]
  · have hround := BinaryFormat.nearest_mono (F := .double) (by decide) (by positivity)
      (Decimal.two_pow_le_toRat hzero hlarge)
    rw [nearest_two_pow] at hround
    have hlargest : BinaryFormat.double.largest < 2 ^ 1024 := by decide +kernel
    exact (if_pos (hlargest.trans_le hround)).symm
  · have hround := BinaryFormat.nearest_eq_zero (F := .double) (by decide) d.toRat_nonneg
      (Decimal.toRat_lt_two_zpow hsmall)
    rw [ofExact_eq (by rw [hround]; decide +kernel), hround]
  · rfl

/-! ## Numbers of the format -/

namespace Binary

variable {F : BinaryFormat} {x y : Binary F}

/-- A number that the format has: rounding leaves its magnitude alone. -/
def IsValue : Binary F → Prop
  | finite _ magnitude => 0 ≤ magnitude ∧ F.nearest magnitude = magnitude
  | _ => True

theorem IsValue.isProper (h : x.IsValue) : x.IsProper := by
  cases x with
  | finite s m => exact h.1
  | _ => trivial

theorem isValue_ofExact (hprecision : 0 < F.precision) (negative : Bool) {a : Rat} (ha : 0 ≤ a) :
    (ofExact negative a : Binary F).IsValue := by
  unfold ofExact
  dsimp only
  split_ifs
  · trivial
  · exact ⟨F.nearest_nonneg ha, BinaryFormat.nearest_nearest hprecision ha⟩

/-- A quotient is rounded, whatever it is a quotient of. -/
theorem isValue_div (hprecision : 0 < F.precision) (hx : x.IsProper) (hy : y.IsProper) :
    (x.div y).IsValue := by
  have hzero : F.nearest 0 = 0 := BinaryFormat.nearest_zero
  cases x with
  | nan => trivial
  | infinite s => cases y <;> trivial
  | finite s a =>
      cases y with
      | nan => trivial
      | infinite t => exact ⟨le_rfl, hzero⟩
      | finite t b =>
          show (if b = 0 then (if a = 0 then _ else _) else _ : Binary F).IsValue
          split_ifs
          · trivial
          · trivial
          · exact isValue_ofExact hprecision _ (div_nonneg hx hy)

/-- **Every bit pattern is one of a number of the format.** -/
theorem isValue_ofBits (hprecision : 0 < F.precision) (bits : Nat) :
    (ofBits bits : Binary F).IsValue := by
  have hlead : F.leadingBit + F.leadingBit = 2 ^ F.precision := by
    rw [BinaryFormat.leadingBit, Nat.one_shiftLeft, ← two_mul, ← Nat.pow_succ',
      Nat.succ_eq_add_one, Nat.sub_add_cancel hprecision]
  have hpos : 0 < F.leadingBit := by
    rw [BinaryFormat.leadingBit, Nat.one_shiftLeft]
    positivity
  have hfraction := Nat.mod_lt (bits % signBit F) hpos
  -- a significand that fits the precision, not below the format's last place
  have hfinite : ∀ (s : Bool) (n : Nat) (e : Int), n ≤ 2 ^ F.precision → F.minExp ≤ e →
      (finite s (n * 2 ^ e) : Binary F).IsValue := fun s n e hn he =>
    ⟨mul_nonneg (Nat.cast_nonneg _) (two_zpow_pos _).le,
      BinaryFormat.nearest_significand hprecision hn he⟩
  unfold ofBits
  dsimp only
  generalize bits % signBit F / F.leadingBit = field
  split_ifs
  · trivial
  · trivial
  · exact hfinite _ _ _ (by omega) le_rfl
  · exact hfinite _ _ _ (by omega) (by omega)

end Binary

end PacedNet
