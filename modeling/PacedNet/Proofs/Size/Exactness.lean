import PacedNet.Proofs.Number.Precision
import PacedNet.Proofs.Size.Spelling
import Mathlib.RingTheory.Coprime.Lemmas

/-!
# Sizes that are whole numbers of bytes

A size is read by rounding the number, multiplying it by the unit, rounding the product and cutting
off what is behind its point. A product that comes out a little too small therefore loses a whole
byte, as `1.001 KB` does, which reads as 1000 bytes (`parse_thousand_and_one`).

Up to two to the fifty-third that is the worst that happens: the size read is off by one byte at
most (`parse_whole`). It is right where the number is a value of the format, and so wherever the
unit is the byte or a power of 1024: dividing a whole number by such a power leaves its significant
bits as they are.
-/

namespace PacedNet

open BinaryFormat

variable {family : UnitFamily} {e n : Nat} {d y : Rat} {s : List Char} {x : Quantity}

/-! ## Units -/

theorem SpellsUnit.exponent_le (h : SpellsUnit family e s) : e ≤ 8 := by
  have hindex : ∀ {i c}, unitLetters[i]? = some c → i + 1 ≤ 8 :=
    fun h => (List.getElem?_eq_some_iff.mp h).1
  cases h with
  | byte => omega
  | decimal hletter => exact hindex hletter
  | binary hletter => exact hindex hletter

namespace UnitFamily

theorem one_le_power (family : UnitFamily) (e : Nat) : (1 : Rat) ≤ (family.base : Rat) ^ e := by
  have hbase : (1 : Rat) ≤ family.base := by cases family <;> norm_num [base]
  exact one_le_pow₀ hbase

theorem power_le (family : UnitFamily) (he : e ≤ 8) : (family.base : Rat) ^ e ≤ 2 ^ 80 := by
  have hbase : (family.base : Rat) ≤ 1024 := by cases family <;> norm_num [base]
  calc (family.base : Rat) ^ e ≤ 1024 ^ e := pow_le_pow_left₀ (Nat.cast_nonneg _) hbase e
    _ ≤ 1024 ^ 8 := pow_le_pow_right₀ (by norm_num) he
    _ = 2 ^ 80 := by norm_num

theorem binary_power (e : Nat) : (binary.base : Rat) ^ e = 2 ^ (10 * e) := by
  rw [pow_mul]
  norm_num [base]

/-- A power of 1024 is a value of the format. -/
theorem nearest_binary (e : Nat) :
    double.nearest ((binary.base : Rat) ^ e) = (binary.base : Rat) ^ e := by
  rw [binary_power, Binary.nearest_two_pow]

/-- A power of 1000 is one, too, except for the greatest. -/
theorem nearest_decimal (he : e ≤ 7) :
    double.nearest ((decimal.base : Rat) ^ e) = (decimal.base : Rat) ^ e := by
  have hall : ∀ e ≤ 7, double.nearest ((decimal.base : Rat) ^ e) = (decimal.base : Rat) ^ e := by
    decide +kernel
  exact hall e he

/-- No unit is rounded up, and what the greatest loses is a sixth of its last bit at most. -/
theorem nearest_power (family : UnitFamily) (he : e ≤ 8) :
    double.nearest ((family.base : Rat) ^ e) ≤ (family.base : Rat) ^ e
      ∧ (family.base : Rat) ^ e * (1 - 1 / (6 * 2 ^ 53))
        ≤ double.nearest ((family.base : Rat) ^ e) := by
  have hall : ∀ e ≤ 8, double.nearest ((decimal.base : Rat) ^ e) ≤ (decimal.base : Rat) ^ e
      ∧ (decimal.base : Rat) ^ e * (1 - 1 / (6 * 2 ^ 53))
        ≤ double.nearest ((decimal.base : Rat) ^ e) := by decide +kernel
  cases family with
  | binary =>
      rw [nearest_binary]
      have := one_le_power binary e
      exact ⟨le_rfl, by linarith⟩
  | decimal => exact hall e he

end UnitFamily

namespace ByteSize

theorem unit_eq (family : UnitFamily) (he : e ≤ 8) :
    unit family e = .finite false (double.nearest ((family.base : Rat) ^ e)) := by
  have hpos : (0 : Rat) ≤ (family.base : Rat) ^ e := zero_le_one.trans (family.one_le_power e)
  unfold unit Binary.ofRat
  rw [decide_eq_false (not_lt.mpr hpos), Rat.abs_of_nonneg hpos]
  exact (Binary.ofExact_of_le (e := 80) (by norm_num) hpos (family.power_le he)).1

theorem least_bytes : least.bytes = -9223372036854775808 := rfl

theorem greatest_bytes : greatest.bytes = 9223372036854775807 := rfl

theorem clamp_bytes (n : Int) :
    (clamp n).bytes = max (-9223372036854775808) (min 9223372036854775807 n) := by
  have hlow := least_bytes
  have hhigh := greatest_bytes
  unfold clamp
  split_ifs with h h'
  · omega
  · omega
  · show n = _
    omega

theorem ofBinary_bytes (negative : Bool) (magnitude : Rat) :
    (ofBinary (.finite negative magnitude)).bytes
      = max (-9223372036854775808)
        (min 9223372036854775807 (truncate (Binary.signed negative magnitude))) := by
  unfold ofBinary
  rw [clamp_bytes, least_bytes, greatest_bytes]
  show max _ (min _ (max _ (min _ _))) = _
  omega

end ByteSize

/-! ## Products -/

/-- The magnitude that the parts are read as, before anything is cut off. -/
def Quantity.product (x : Quantity) : Rat :=
  double.nearest (double.nearest x.number.toRat
    * double.nearest ((x.family.base : Rat) ^ x.exponent))

theorem Quantity.product_nonneg (x : Quantity) : 0 ≤ x.product :=
  nearest_nonneg _ (mul_nonneg (nearest_nonneg _ x.number.toRat_nonneg)
    (nearest_nonneg _ (zero_le_one.trans (x.family.one_le_power _))))

/-- **A size is the product cut off at its point**, as far as 64 bits go. -/
theorem Quantity.size_bytes (he : x.exponent ≤ 8) (hnumber : x.number.toRat ≤ 2 ^ 118)
    (hrange : double.nearest x.number.toRat * double.nearest ((x.family.base : Rat) ^ x.exponent)
      ≤ 2 ^ 118) :
    x.size.bytes = max (-9223372036854775808)
      (min 9223372036854775807 (truncate (Binary.signed x.negative x.product))) := by
  have hd := x.number.toRat_nonneg
  have hpower := zero_le_one.trans (x.family.one_le_power x.exponent)
  have hread := Binary.ofExact_of_le (s := false) le_rfl hd hnumber
  -- the factor of one that bears the sign leaves the number as it was rounded
  have hsign : ((if x.negative then .finite true 1 else .one : Binary64).mul
      (.finite false (double.nearest x.number.toRat)))
        = .finite x.negative (double.nearest x.number.toRat) := by
    have hkept := nearest_nearest (F := .double) (by decide) hd
    have hone : ∀ negative, (Binary.ofExact negative (1 * double.nearest x.number.toRat) : Binary64)
        = .finite negative (double.nearest x.number.toRat) := by
      intro negative
      rw [one_mul, (Binary.ofExact_of_le le_rfl (nearest_nonneg _ hd) hread.2).1, hkept]
    cases x.negative with
    | false => exact hone false
    | true => exact hone true
  have hproduct : ((.finite x.negative (double.nearest x.number.toRat) : Binary64).mul
      (ByteSize.unit x.family x.exponent)) = .finite x.negative x.product := by
    rw [ByteSize.unit_eq _ he]
    show Binary.ofExact (x.negative != false) _ = _
    rw [Bool.bne_false, (Binary.ofExact_of_le le_rfl (mul_nonneg (nearest_nonneg _ hd)
      (nearest_nonneg _ hpower)) hrange).1]
    rfl
  unfold size
  dsimp only
  rw [Binary.ofDecimal_eq, hread.1, hsign, hproduct, ByteSize.ofBinary_bytes]

theorem truncate_signed (negative : Bool) (hy : 0 ≤ y) :
    truncate (Binary.signed negative y) = if negative then -y.floor else y.floor := by
  unfold truncate Binary.signed
  cases negative with
  | false => exact if_neg (not_lt.mpr hy)
  | true =>
      rcases hy.eq_or_lt with rfl | hpos
      · rfl
      · show (if -y < 0 then -(- -y).floor else (-y).floor) = -y.floor
        rw [if_pos (neg_lt_zero.mpr hpos), neg_neg]

/-- A signed magnitude that is a whole number. -/
theorem natAbs_of_signed {negative : Bool} {v : Int} (hy : 0 ≤ y)
    (h : Binary.signed negative y = v) :
    y = v.natAbs ∧ v = if negative then -(v.natAbs : Int) else v.natAbs := by
  cases negative with
  | false =>
      have hv : 0 ≤ v := by
        have : (0 : Rat) ≤ v := h ▸ hy
        exact_mod_cast this
      have habs : (v.natAbs : Int) = v := Int.natAbs_of_nonneg hv
      refine ⟨h.trans ?_, habs.symm⟩
      rw [← Int.cast_natCast, habs]
  | true =>
      have hneg : y = -(v : Rat) := by rw [← h, Binary.signed, if_pos rfl, neg_neg]
      have hv : v ≤ 0 := by
        have : (v : Rat) ≤ 0 := by linarith
        exact_mod_cast this
      have habs : (v.natAbs : Int) = -v := Int.ofNat_natAbs_of_nonpos hv
      refine ⟨hneg.trans ?_, ?_⟩
      · rw [← Int.cast_natCast, habs, Int.cast_neg]
      · rw [habs, if_pos rfl, neg_neg]

/-! ## Whole numbers of bytes -/

/-- The number is off by a fraction of itself, and so is the unit. -/
theorem product_bounds (hd : 0 ≤ d) (he : e ≤ 8) (hwhole : d * (family.base : Rat) ^ e = n) :
    n * (1 - 7 / (6 * 2 ^ 53)) ≤ double.nearest d * double.nearest ((family.base : Rat) ^ e)
      ∧ double.nearest d * double.nearest ((family.base : Rat) ^ e) ≤ n * (1 + 1 / 2 ^ 53) := by
  have hone := family.one_le_power e
  have hpower := family.power_le he
  obtain ⟨hhigh, hlow⟩ := family.nearest_power he
  rcases n.eq_zero_or_pos with rfl | hn
  · obtain rfl : d = 0 := by
      rcases mul_eq_zero.mp (hwhole.trans Nat.cast_zero) with h | h
      · exact h
      · linarith
    rw [nearest_zero]
    simp
  · have hn' : (1 : Rat) ≤ n := by exact_mod_cast hn
    have hfull : (2 : Rat) ^ (double.minExp + double.precision - 1) ≤ d := by
      have hscaled : 1 ≤ d * 2 ^ 80 := by
        rw [← hwhole] at hn'
        exact hn'.trans (mul_le_mul_of_nonneg_left hpower hd)
      calc (2 : Rat) ^ (double.minExp + double.precision - 1)
          ≤ 2 ^ (-(80 : Nat) : Int) := zpow_le_zpow_right₀ one_le_two (by decide)
        _ = 1 / 2 ^ 80 := by rw [zpow_neg, zpow_natCast, one_div]
        _ ≤ d := (div_le_iff₀ (by positivity)).mpr hscaled
    obtain ⟨hfew, hmany⟩ := abs_le.mp (abs_nearest_sub_le_relative hfull)
    have hprecision : double.precision = 53 := rfl
    rw [hprecision] at hfew hmany
    rw [← hwhole]
    generalize (family.base : Rat) ^ e = u at *
    generalize double.nearest d = d' at *
    generalize double.nearest u = u' at *
    have hu : 0 ≤ u := zero_le_one.trans hone
    have hloss : (1 - 7 / (6 * 2 ^ 53) : Rat) ≤ (1 - 1 / 2 ^ 53) * (1 - 1 / (6 * 2 ^ 53)) := by
      norm_num
    constructor
    · calc d * u * (1 - 7 / (6 * 2 ^ 53))
          ≤ d * u * ((1 - 1 / 2 ^ 53) * (1 - 1 / (6 * 2 ^ 53))) :=
            mul_le_mul_of_nonneg_left hloss (mul_nonneg hd hu)
        _ = (d * (1 - 1 / 2 ^ 53)) * (u * (1 - 1 / (6 * 2 ^ 53))) := by ring
        _ ≤ d' * u' := by
            refine mul_le_mul (by linarith) hlow (mul_nonneg hu (by norm_num)) (by linarith)
    · calc d' * u' ≤ (d * (1 + 1 / 2 ^ 53)) * u := by
            refine mul_le_mul (by linarith) hhigh ?_ (mul_nonneg hd (by norm_num))
            exact le_trans (mul_nonneg hu (by norm_num)) hlow
        _ = d * u * (1 + 1 / 2 ^ 53) := by ring

/-- **The product is off by one at most.** -/
theorem nearest_product_bounds (hd : 0 ≤ d) (he : e ≤ 8)
    (hwhole : d * (family.base : Rat) ^ e = n) (hn : n ≤ 2 ^ 53) :
    (n : Rat) - 1 ≤ double.nearest (double.nearest d * double.nearest ((family.base : Rat) ^ e))
      ∧ double.nearest (double.nearest d * double.nearest ((family.base : Rat) ^ e)) ≤ n + 1 := by
  obtain ⟨hlow, hhigh⟩ := product_bounds hd he hwhole
  generalize double.nearest d * double.nearest ((family.base : Rat) ^ e) = y at hlow hhigh ⊢
  have hn' : (n : Rat) ≤ 2 ^ 53 := by exact_mod_cast hn
  have hpos : (0 : Rat) ≤ n := Nat.cast_nonneg n
  have hy : 0 ≤ y := (mul_nonneg hpos (by norm_num)).trans hlow
  constructor
  · rcases n.eq_zero_or_pos with rfl | hpos
    · have := nearest_nonneg double hy
      norm_num
      linarith
    · have hpred : ((n - 1 : Nat) : Rat) = n - 1 := by
        rw [Nat.cast_sub hpos, Nat.cast_one]
      rw [← hpred]
      rcases le_or_gt n (2 ^ 52) with hsmall | hlarge
      · have hsmall' : (n : Rat) ≤ 2 ^ 52 := by exact_mod_cast hsmall
        refine natCast_le_nearest (by omega) ?_
        rw [hpred]
        linarith
      · -- here the error may be more than one, and the rounding takes the rest of it back
        refine natCast_le_nearest_of_lt (by omega) (by omega) ?_
        rw [hpred]
        linarith
  · have hsum : y ≤ (n + 1 : Nat) := by
      push_cast
      linarith
    rcases hn.eq_or_lt with rfl | hlt
    · -- halfway to the next value of the format, where the lesser one is even
      have htie : double.nearest ((2 ^ 53 + 1 : Nat) : Rat) = (2 ^ 53 : Nat) := by decide +kernel
      have hround := nearest_mono (F := .double) (by decide) hy hsum
      rw [htie] at hround
      linarith
    · have hround := nearest_le_natCast hlt hy hsum
      push_cast at hround
      exact hround

/-- A value of the format is a whole number over a power of two, whatever the power. -/
theorem five_pow_dvd (hd : 0 < d) (hvalue : double.nearest d = d)
    (hwhole : d * (UnitFamily.decimal.base : Rat) ^ 8 = n) : 5 ^ 24 ∣ n := by
  obtain ⟨m, hplace⟩ : ∃ m : Nat, -(m : Int) ≤ double.lastPlace d := by
    refine ⟨1074, ?_⟩
    rw [lastPlace_eq hd]
    exact le_max_right _ _
  obtain ⟨k, hk⟩ := (hvalue ▸ onGrid_nearest (F := .double) hd).of_le hplace
  rw [zpow_neg, zpow_natCast] at hk
  have hbase : (UnitFamily.decimal.base : Rat) ^ 8 = 5 ^ 24 * 2 ^ 24 := by
    norm_num [UnitFamily.base]
  have hscaled : (k : Rat) * (5 ^ 24 * 2 ^ 24) = n * 2 ^ m := by
    rw [← hwhole, hk, hbase]
    field_simp
  have hscaled' : k * (5 ^ 24 * 2 ^ 24) = (n : Int) * 2 ^ m := by exact_mod_cast hscaled
  -- the power of two has no part in the odd factor of the unit
  have hdvd : (5 : Int) ^ 24 ∣ (n : Int) * 2 ^ m := ⟨k * 2 ^ 24, by rw [← hscaled']; ring⟩
  have hcoprime : IsCoprime ((5 : Int) ^ 24) (2 ^ m) := IsCoprime.pow ⟨1, -2, by norm_num⟩
  exact_mod_cast hcoprime.dvd_of_dvd_mul_right hdvd

/-- **A number that is a value of the format is read as it is.** -/
theorem nearest_product (hd : 0 ≤ d) (he : e ≤ 8) (hwhole : d * (family.base : Rat) ^ e = n)
    (hn : n ≤ 2 ^ 53) (hvalue : double.nearest d = d) :
    double.nearest (double.nearest d * double.nearest ((family.base : Rat) ^ e)) = n := by
  have hunit : double.nearest ((family.base : Rat) ^ e) = (family.base : Rat) ^ e → double.nearest
      (double.nearest d * double.nearest ((family.base : Rat) ^ e)) = n := by
    intro h
    rw [h, hvalue, hwhole, nearest_natCast hn]
  cases family with
  | binary => exact hunit (UnitFamily.nearest_binary e)
  | decimal =>
      rcases he.lt_or_eq with hlt | rfl
      · exact hunit (UnitFamily.nearest_decimal (by omega))
      · -- but for zero, no multiple of the odd part of the greatest unit is small enough
        rcases hd.eq_or_lt with rfl | hpos
        · rw [nearest_zero, zero_mul, nearest_zero]
          simpa using hwhole
        · have hdvd := five_pow_dvd hpos hvalue hwhole
          have hn0 : n = 0 := Nat.eq_zero_of_dvd_of_lt hdvd (hn.trans_lt (by norm_num))
          rw [hn0, Nat.cast_zero] at hwhole
          exact absurd hwhole (mul_pos hpos (by norm_num [UnitFamily.base])).ne'

/-- What a whole number is read as, without its sign. -/
theorem Quantity.size_whole (he : x.exponent ≤ 8)
    (hwhole : x.number.toRat * (x.family.base : Rat) ^ x.exponent = n) (hn : n ≤ 2 ^ 53) :
    ∃ k : Int, x.size.bytes = (if x.negative then -k else k) ∧ n - 1 ≤ k ∧ k ≤ n + 1
      ∧ (double.nearest x.number.toRat = x.number.toRat → k = n) := by
  have hd := x.number.toRat_nonneg
  have hn' : (n : Rat) ≤ 2 ^ 53 := by exact_mod_cast hn
  have hnumber : x.number.toRat ≤ 2 ^ 118 := by
    have hgrow := mul_le_mul_of_nonneg_left (x.family.one_le_power x.exponent) hd
    linarith
  have hrange := (product_bounds hd he hwhole).2
  obtain ⟨hlow, hhigh⟩ := nearest_product_bounds hd he hwhole hn
  have hlow' : (n : Int) - 1 ≤ x.product.floor := by
    rw [Rat.le_floor_iff]
    push_cast
    exact hlow
  have hhigh' : x.product.floor ≤ n + 1 := by
    have : (x.product.floor : Rat) ≤ n + 1 := (Rat.floor_le _).trans hhigh
    exact_mod_cast this
  refine ⟨x.product.floor, ?_, hlow', hhigh', fun hvalue => ?_⟩
  · rw [Quantity.size_bytes he hnumber (by linarith), truncate_signed _ x.product_nonneg]
    split_ifs <;> omega
  · have hproduct : x.product = (n : Int) := nearest_product hd he hwhole hn hvalue
    rw [hproduct, Rat.floor_intCast]

/-- The byte and the powers of 1024 are powers of two. -/
theorem Quantity.exists_power (hunit : x.family = .binary ∨ x.exponent = 0) (he : x.exponent ≤ 8) :
    ∃ k ≤ 80, (x.family.base : Rat) ^ x.exponent = 2 ^ k := by
  rcases hunit with hfamily | hexponent
  · rw [hfamily]
    exact ⟨10 * x.exponent, by omega, UnitFamily.binary_power _⟩
  · exact ⟨0, by omega, by rw [hexponent, pow_zero, pow_zero]⟩

/-- A whole number of a unit that is a power of two is a value of the format. -/
theorem Quantity.nearest_number (hunit : x.family = .binary ∨ x.exponent = 0) (he : x.exponent ≤ 8)
    (hwhole : x.number.toRat * (x.family.base : Rat) ^ x.exponent = n) (hn : n ≤ 2 ^ 53) :
    double.nearest x.number.toRat = x.number.toRat := by
  obtain ⟨k, hk, hpower⟩ := Quantity.exists_power hunit he
  rw [hpower] at hwhole
  rw [eq_div_of_mul_eq (by positivity) hwhole, nearest_div_two_pow hn (by omega)]

theorem Quantity.Spells.exponent_le (h : x.Spells s) : x.exponent ≤ 8 := by
  obtain ⟨-, core, -, -, -, ⟨-, body, -, hbody, -⟩, -⟩ := h
  obtain ⟨-, -, unit, -, -, hunit, -⟩ := hbody.parts
  exact hunit.exponent_le

namespace ByteSize

/-- **A whole number of bytes is read to the byte, or off by one.** A text is read if it is written
as a size. If it stands for a whole number, up to two to the fifty-third the size is off by one at
most, and it is that number wherever the unit is the byte or a power of 1024, and wherever the
number in front of the unit is a value of the format. -/
theorem parse_whole (text : String) :
    ((∃ size, parse text = .ok size) ↔ ∃ x : Quantity, x.Spells text.toList)
      ∧ ∀ x : Quantity, x.Spells text.toList → ∀ v : Int, x.value = v → |v| ≤ 2 ^ 53 →
        ∃ size, parse text = .ok size ∧ |size.bytes - v| ≤ 1
          ∧ (x.family = .binary ∨ x.exponent = 0
            ∨ double.nearest x.number.toRat = x.number.toRat → size.bytes = v) := by
  constructor
  · constructor
    · rintro ⟨size, hsize⟩
      exact (parse_eq_ok.mp hsize).imp fun x hx => hx.1
    · rintro ⟨x, hx⟩
      exact ⟨x.size, parse_eq_ok.mpr ⟨x, hx, rfl⟩⟩
  · intro x hx v hvalue hv
    have he := hx.exponent_le
    -- the exact product is the magnitude of the number
    have hmagnitude : 0 ≤ x.number.toRat * (x.family.base : Rat) ^ x.exponent :=
      mul_nonneg x.number.toRat_nonneg (zero_le_one.trans (x.family.one_le_power _))
    obtain ⟨hwhole, hsigned⟩ := natAbs_of_signed hmagnitude hvalue
    have hn : v.natAbs ≤ 2 ^ 53 := by
      rw [Int.abs_eq_natAbs] at hv
      exact_mod_cast hv
    obtain ⟨k, hbytes, hlow, hhigh, hexact⟩ := Quantity.size_whole he hwhole hn
    refine ⟨x.size, parse_eq_ok.mpr ⟨x, hx, rfl⟩, ?_, ?_⟩
    · rw [hbytes, abs_le]
      split_ifs at hsigned ⊢ <;> omega
    · intro hkept
      have hvalue : double.nearest x.number.toRat = x.number.toRat := by
        rcases hkept with hfamily | hexponent | hvalue
        · exact Quantity.nearest_number (Or.inl hfamily) he hwhole hn
        · exact Quantity.nearest_number (Or.inr hexponent) he hwhole hn
        · exact hvalue
      rw [hbytes, hexact hvalue, ← hsigned]

/-- One kilobyte and so many of its parts. -/
def kilobyteAnd (fraction : List Char) : Quantity := ⟨false, ['1'], fraction, .decimal, 1⟩

theorem spells_kilobyteAnd {fraction : List Char} (h : ∀ c ∈ fraction, isDigit c = true) :
    (kilobyteAnd fraction).Spells (['1'] ++ '.' :: fraction ++ [' ', 'K', 'B']) := by
  have hbody : (kilobyteAnd fraction).SpellsBody (['1'] ++ '.' :: fraction ++ [' ', 'K', 'B']) :=
    ⟨List.cons_ne_nil _ _, List.all_eq_true.mp rfl, h, _, [' '], ['K', 'B'], .pointed _ _,
      List.all_eq_true.mp rfl, .decimal (i := 0) rfl (Or.inr rfl), rfl⟩
  exact hbody.spells .none

/-- One and a half is a value of the format. -/
theorem parse_whole_half : (kilobyteAnd ['5']).Spells "1.5 KB".toList
    ∧ (kilobyteAnd ['5']).value = (1500 : Int)
    ∧ double.nearest (kilobyteAnd ['5']).number.toRat = (kilobyteAnd ['5']).number.toRat
    ∧ ∃ size, parse "1.5 KB" = .ok size ∧ |size.bytes - 1500| ≤ 1 ∧ size.bytes = 1500 := by
  have hspells : (kilobyteAnd ['5']).Spells "1.5 KB".toList :=
    spells_kilobyteAnd (List.all_eq_true.mp rfl)
  have hvalue : (kilobyteAnd ['5']).value = (1500 : Int) := by decide +kernel
  have hnumber : double.nearest (kilobyteAnd ['5']).number.toRat
      = (kilobyteAnd ['5']).number.toRat := by decide +kernel
  obtain ⟨size, hread, hnear, hexact⟩ :=
    (parse_whole "1.5 KB").2 _ hspells 1500 hvalue (by norm_num)
  exact ⟨hspells, hvalue, hnumber, size, hread, hnear, hexact (Or.inr (Or.inr hnumber))⟩

/-- A thousand and one bytes are read as a thousand: the product comes out a little too small, and
what is behind its point is cut off. -/
theorem parse_thousand_and_one : ∃ size, parse "1.001 KB" = .ok size ∧ size.bytes = 1000
    ∧ (kilobyteAnd ['0', '0', '1']).Spells "1.001 KB".toList
    ∧ (kilobyteAnd ['0', '0', '1']).value = (1001 : Int) := by
  have hread : parse "1.001 KB" = .ok (.clamp 1000) := by decide +kernel
  exact ⟨_, hread, rfl, spells_kilobyteAnd (List.all_eq_true.mp rfl), by decide +kernel⟩

end ByteSize

end PacedNet
