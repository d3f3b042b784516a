import PacedNet.Proofs.Halves

/-!
# What a quota allots

A share is the quotient of two sizes, rounded, and what is allotted is its product with the
capacity, rounded, and rounded again to a whole number of bytes (`allotted_bytes`). As far as the
quotient and the product are exact to one part in two to the fifty-third, a size that was allotted
of a capacity of up to two to the fiftieth comes back to within less than half a byte
(`abs_product_sub_lt`), and the nearest byte is the size itself (`ofAllotted_exact`).
-/

namespace PacedNet

open BinaryFormat

variable {a c : Int} {x y : Rat}

/-! ## Rounding to whole bytes -/

/-- The nearest integer is the only one that is less than a half away. -/
theorem roundHalfAway_of_near {n : Int} (hx : 0 ≤ x) (h : |x - n| < 1 / 2) :
    roundHalfAway x = n := by
  obtain ⟨hlow, hhigh⟩ := abs_lt.mp h
  unfold roundHalfAway
  rw [if_neg (not_lt.mpr hx)]
  have hge : n ≤ (x + 1 / 2).floor := Rat.le_floor_iff.mpr (by linarith)
  have hlt : (x + 1 / 2).floor < n + 1 := Rat.floor_lt_iff.mpr (by push_cast; linarith)
  omega

namespace Rounding

variable {r : Rounding}

theorem apply_mono (hx : 0 ≤ x) (h : x ≤ y) : r.apply x ≤ r.apply y := by
  cases r with
  | nearest =>
      show roundHalfAway x ≤ roundHalfAway y
      unfold roundHalfAway
      rw [if_neg (not_lt.mpr hx), if_neg (not_lt.mpr (hx.trans h))]
      exact Rat.floor_monotone (by linarith)
  | down => exact Rat.floor_monotone h
  | up =>
      show x.ceil ≤ y.ceil
      rw [Rat.ceil_eq_neg_floor_neg, Rat.ceil_eq_neg_floor_neg]
      exact neg_le_neg (Rat.floor_monotone (neg_le_neg h))

theorem apply_intCast {n : Int} (hn : 0 ≤ n) : r.apply n = n := by
  cases r with
  | nearest => exact roundHalfAway_intCast hn
  | down => exact Rat.floor_intCast n
  | up => exact Rat.ceil_intCast n

/-- What lies between two integers is rounded to one between them. -/
theorem apply_mem {m n : Int} (hm : 0 ≤ m) (hlow : (m : Rat) ≤ x) (hhigh : x ≤ n) :
    m ≤ r.apply x ∧ r.apply x ≤ n := by
  have hx : 0 ≤ x := (by exact_mod_cast hm : (0 : Rat) ≤ m).trans hlow
  have hn : 0 ≤ n := by exact_mod_cast hx.trans hhigh
  exact ⟨by simpa [apply_intCast hm] using apply_mono (r := r) (by exact_mod_cast hm) hlow,
    by simpa [apply_intCast hn] using apply_mono (r := r) hx hhigh⟩

end Rounding

/-! ## Quotients multiplied back -/

/-- A size divided by a capacity and multiplied by it again. -/
theorem abs_product_sub_lt (ha : 0 ≤ a) (hac : a ≤ c) (hc : c ≤ 2 ^ 50) :
    |double.nearest (c * double.nearest (a / c)) - a| < 1 / 2 := by
  rcases ha.eq_or_lt with rfl | ha
  · simp
  -- both roundings are off by one part in two to the fifty-third at most
  have hrelative {z : Rat} (hz : 1 / 2 ^ 50 ≤ z) : |double.nearest z - z| ≤ z / 2 ^ 53 := by
    have hleast : (2 : Rat) ^ (double.minExp + double.precision - 1) ≤ 2 ^ (-50 : Int) :=
      zpow_le_zpow_right₀ one_le_two (by decide)
    exact abs_nearest_sub_le_relative (hleast.trans (by simpa using hz))
  have ha' : (1 : Rat) ≤ a := by exact_mod_cast ha
  have hc' : (c : Rat) ≤ 2 ^ 50 := by exact_mod_cast hc
  have hac' : (a : Rat) ≤ c := by exact_mod_cast hac
  have hpos : (0 : Rat) < c := zero_lt_one.trans_le (ha'.trans hac')
  have hquotient : (1 : Rat) / 2 ^ 50 ≤ a / c := by
    rw [div_le_div_iff₀ (by norm_num) hpos]
    calc (1 : Rat) * c ≤ 1 * 2 ^ 50 := by linarith
      _ ≤ a * 2 ^ 50 := mul_le_mul_of_nonneg_right ha' (by norm_num)
  have hback : |c * double.nearest (a / c) - a| ≤ a / 2 ^ 53 := by
    have hscale : c * double.nearest (a / c) - a = c * (double.nearest (a / c) - a / c) := by
      field_simp
    rw [hscale, abs_mul, abs_of_pos hpos]
    calc c * |double.nearest (a / c) - a / c| ≤ c * (a / c / 2 ^ 53) :=
          mul_le_mul_of_nonneg_left (hrelative hquotient) hpos.le
      _ = a / 2 ^ 53 := by field_simp
  obtain ⟨hlow, hhigh⟩ := abs_le.mp hback
  generalize c * double.nearest (a / c) = product at hlow hhigh ⊢
  -- of at most two to the fiftieth that is an eighth of a byte for the quotient and, but for a
  -- little more, another for the product
  obtain ⟨hlow', hhigh'⟩ := abs_le.mp (hrelative (z := product) (by linarith))
  rw [abs_lt]
  constructor <;> linarith

namespace Quota

variable {q : Quota} {capacity size : ByteSize} {f : Rat}

/-- What is allotted of a share: the product, rounded twice. -/
theorem allotted_bytes (hlow : 0 ≤ q.capacity.bytes) (hhigh : q.capacity.bytes ≤ 2 ^ 53)
    (hfraction : q.fraction = .finite false f) (hf : 0 ≤ f) (hf' : f ≤ 1) :
    q.allotted.bytes = q.rounding.apply (double.nearest (q.capacity.bytes * f)) := by
  have hlow' : (0 : Rat) ≤ q.capacity.bytes := by exact_mod_cast hlow
  have hcast : (q.capacity.bytes : Rat) = q.capacity.bytes.toNat := by
    rw [← Int.cast_natCast, Int.toNat_of_nonneg hlow]
  have hproduct : (q.capacity.bytes : Rat) * f ≤ q.capacity.bytes :=
    mul_le_of_le_one_right hlow' hf'
  have hnonneg : 0 ≤ (q.capacity.bytes : Rat) * f := mul_nonneg hlow' hf
  have hround : double.nearest (q.capacity.bytes * f) ≤ q.capacity.bytes := by
    rw [hcast] at hproduct hnonneg ⊢
    exact nearest_le_natCast (by omega) hnonneg hproduct
  have hmul : q.capacity.toBinary.mul q.fraction
      = .finite false (double.nearest (q.capacity.bytes * f)) := by
    rw [ByteSize.toBinary_eq hlow hhigh, hfraction]
    exact (Binary.ofExact_of_le (e := 53) (by norm_num) hnonneg
      (hproduct.trans (by exact_mod_cast hhigh))).1
  obtain ⟨hzero, hupper⟩ := Rounding.apply_mem (r := q.rounding) le_rfl
    (by simpa using nearest_nonneg double hnonneg) hround
  unfold allotted
  dsimp only
  rw [hmul, ByteSize.clamp_bytes, ByteSize.least_bytes, ByteSize.greatest_bytes]
  show max _ (min _ (max _ (min _ (q.rounding.apply (double.nearest _))))) = _
  omega

/-- **A quota that is made to allot a size allots it**, to the byte. -/
theorem ofAllotted_exact (hpos : 1 ≤ capacity.bytes) (hcapacity : capacity.bytes ≤ 2 ^ 50)
    (hlow : 0 ≤ size.bytes) (hle : size.bytes ≤ capacity.bytes) (now : Instant) :
    ∃ q, ofAllotted now capacity size = .ok q ∧ q.capacity = capacity
      ∧ q.rounding = .nearest ∧ q.allotted = size := by
  obtain ⟨hratio, hnonneg, hone⟩ := ByteSize.ratio_eq hlow hle (by omega) (by omega)
  have hgives : Gives capacity (.allotted size) (size.ratio capacity) := .allotted (by omega)
  obtain ⟨bucket, hmake⟩ := exists_make now hgives ⟨_, congrArg _ hratio, hnonneg, hone⟩
  refine ⟨_, hmake, rfl, rfl, ByteSize.eq_of_bytes ?_⟩
  have hcapacity' : (0 : Rat) ≤ capacity.bytes := by exact_mod_cast (by omega : 0 ≤ capacity.bytes)
  rw [allotted_bytes (by simp only; omega) (by simp only; omega) hratio hnonneg hone]
  exact roundHalfAway_of_near (nearest_nonneg _ (mul_nonneg hcapacity' hnonneg))
    (abs_product_sub_lt hlow hle hcapacity)

/-- A third of a petabyte, but for a third of a byte: the share is no number of the format. -/
theorem ofAllotted_exact_third :
    double.nearest (333333333333333 / 10 ^ 15) ≠ 333333333333333 / 10 ^ 15
      ∧ ∃ q, ofAllotted 0 (.clamp (10 ^ 15)) (.clamp 333333333333333) = .ok q
        ∧ q.allotted = .clamp 333333333333333 := by
  obtain ⟨q, hmake, -, -, hallotted⟩ := @ofAllotted_exact (.clamp (10 ^ 15))
    (.clamp 333333333333333) (by decide) (by decide) (by decide) (by decide) 0
  exact ⟨by decide +kernel, q, hmake, hallotted⟩

end Quota

end PacedNet
