import PacedNet.Proofs.Allotting
import PacedNet.Proofs.Granting

/-!
# Three ways to round

What a quota allots is its capacity times its fraction, rounded to a value of the format and then to
a whole number of bytes (`CanHold.allots_eq`). Which way the second rounding goes makes a difference
of one byte at most, since all three ways lead to one of the two whole numbers around the product
(`Rounding.apply_ordered`).

Nothing that is allotted exceeds the capacity. A product with a number up to one is no more than the
capacity, which is a value of the format itself up to two to the fifty-third, so that the first
rounding does not lift the product above it, nor does the second. Both roundings keep the order, and
so what is allotted grows with the fraction and with the capacity (`allots_ordered`).
-/

namespace PacedNet

open BinaryFormat

/-! ## Numbers in order -/

/-- The order of two values is the order of the numbers that they are, whatever sign a zero has. -/
theorem Binary.numLe_iff {F : BinaryFormat} {x y : Binary F} {a b : Rat} (hx : x.toRat? = some a)
    (hy : y.toRat? = some b) : x.numLe y = true ↔ a ≤ b := by
  cases x with
  | nan => cases hx
  | infinite s => cases hx
  | finite s m =>
      cases y with
      | nan => cases hy
      | infinite t => cases hy
      | finite t n =>
          rw [← Option.some.inj hx, ← Option.some.inj hy]
          exact numLe_finite

namespace Rounding

/-- **Down, to the nearest and up**: the whole numbers around a number, in this order. -/
theorem apply_ordered {x : Rat} (hx : 0 ≤ x) :
    down.apply x ≤ nearest.apply x ∧ nearest.apply x ≤ up.apply x
      ∧ up.apply x - down.apply x ≤ 1 := by
  have hfloor : (x.floor : Rat) ≤ x := Rat.floor_le x
  have habove : x < (x.floor + 1 : Int) := Rat.lt_floor_add_one x
  have hceil : x ≤ x.ceil := Rat.le_ceil
  have hbelow : (x.ceil : Rat) < x + 1 := Rat.ceil_lt
  push_cast at habove
  show x.floor ≤ roundHalfAway x ∧ roundHalfAway x ≤ x.ceil ∧ x.ceil - x.floor ≤ 1
  unfold roundHalfAway
  rw [if_neg (not_lt.mpr hx)]
  refine ⟨Rat.floor_monotone (by linarith), ?_, ?_⟩
  · -- what lies above the ceiling is more than a half away
    have hhalf : (x + 1 / 2).floor < x.ceil + 1 := by
      rw [Rat.floor_lt_iff]
      push_cast
      linarith
    omega
  · have htwo : (x.ceil : Rat) < (x.floor + 2 : Int) := by
      push_cast
      linarith
    have htwo' : x.ceil < x.floor + 2 := by exact_mod_cast htwo
    omega

end Rounding

namespace Quota

variable {p q : Quota} {r : Rounding} {f : Rat}

/-- What a quota allots, in bytes, if it rounds one way or another. -/
def allots (q : Quota) (r : Rounding) : Int := ({ q with rounding := r } : Quota).allotted.bytes

/-- A fraction is a number from zero to one. Its zero may have a minus sign, and allots nothing with
it as without it. -/
theorem CanHold.allots_eq (h : CanHold q.fraction) (hf : q.fraction.toRat? = some f)
    (hlow : 0 ≤ q.capacity.bytes) (hhigh : q.capacity.bytes ≤ 2 ^ 53) :
    q.allots r = r.apply (double.nearest (q.capacity.bytes * f)) := by
  obtain ⟨s, m, hfraction, hm, hone, hsign⟩ := h.isShare.eq_finite
  rw [hfraction] at hf
  obtain rfl : Binary.signed s m = f := Option.some.inj hf
  cases s with
  | false => exact allotted_bytes (q := { q with rounding := r }) hlow hhigh hfraction hm hone
  | true =>
      obtain rfl : m = 0 := hsign rfl
      have hzero : Binary.signed true 0 = 0 := neg_zero
      have hproduct : q.capacity.toBinary.mul q.fraction = .finite true 0 := by
        rw [ByteSize.toBinary_eq hlow hhigh, hfraction]
        show Binary.ofExact true ((q.capacity.bytes : Rat) * 0) = _
        rw [mul_zero, Binary.ofExact_eq (by rw [nearest_zero]; decide +kernel), nearest_zero]
      have hnone : r.apply 0 = 0 := Rounding.apply_intCast (n := 0) le_rfl
      unfold allots allotted
      dsimp only
      rw [hproduct, hzero, mul_zero, nearest_zero, hnone]
      show (ByteSize.clamp (max _ (min _ (r.apply (Binary.signed true 0))))).bytes = 0
      rw [hzero, hnone]
      rfl

/-- **What a quota allots is in order**: it lies between nothing and the capacity, rounding down
gives the least and rounding up the most, one byte more at most, and no way to round gives less of a
greater fraction or of a greater capacity. -/
theorem allots_ordered (h : CanHold q.fraction) (hlow : 0 ≤ q.capacity.bytes)
    (hhigh : q.capacity.bytes ≤ 2 ^ 53) :
    (0 ≤ q.allots .down ∧ q.allots .down ≤ q.allots .nearest
        ∧ q.allots .nearest ≤ q.allots .up ∧ q.allots .up ≤ q.capacity.bytes
        ∧ q.allots .up - q.allots .down ≤ 1)
      ∧ ∀ (p : Quota) (r : Rounding), CanHold p.fraction → p.fraction.numLe q.fraction = true →
        0 ≤ p.capacity.bytes → p.capacity.bytes ≤ q.capacity.bytes → p.allots r ≤ q.allots r := by
  obtain ⟨f, hf, hf0, hf1⟩ := h.fraction
  have hcapacity : (0 : Rat) ≤ q.capacity.bytes := by exact_mod_cast hlow
  have hproduct : 0 ≤ double.nearest (q.capacity.bytes * f) :=
    nearest_nonneg _ (mul_nonneg hcapacity hf0)
  constructor
  · -- a capacity of one is the greatest product, and a whole number
    have hfull : double.nearest (q.capacity.bytes * f) ≤ q.capacity.bytes := by
      have hcast : (q.capacity.bytes : Rat) = q.capacity.bytes.toNat := by
        rw [← Int.cast_natCast, Int.toNat_of_nonneg hlow]
      have hle : (q.capacity.bytes : Rat) * f ≤ q.capacity.bytes :=
        mul_le_of_le_one_right hcapacity hf1
      rw [hcast] at hle hcapacity ⊢
      exact nearest_le_natCast (by omega) (mul_nonneg hcapacity hf0) hle
    obtain ⟨hdown, hup, hone⟩ := Rounding.apply_ordered hproduct
    have hleast := (Rounding.apply_mem (r := .down) le_rfl (by simpa using hproduct) hfull).1
    have hmost := (Rounding.apply_mem (r := .up) le_rfl (by simpa using hproduct) hfull).2
    rw [h.allots_eq hf hlow hhigh, h.allots_eq hf hlow hhigh, h.allots_eq hf hlow hhigh]
    exact ⟨hleast, hdown, hup, hmost, hone⟩
  · intro p r hp hle hplow hcapacities
    obtain ⟨g, hg, hg0, -⟩ := hp.fraction
    have hfractions : g ≤ f := (Binary.numLe_iff hg hf).mp hle
    have hpcapacity : (0 : Rat) ≤ p.capacity.bytes := by exact_mod_cast hplow
    have hcapacities' : (p.capacity.bytes : Rat) ≤ q.capacity.bytes := by exact_mod_cast hcapacities
    have hproducts : (p.capacity.bytes : Rat) * g ≤ q.capacity.bytes * f :=
      mul_le_mul hcapacities' hfractions hg0 hcapacity
    rw [hp.allots_eq hg hplow (hcapacities.trans hhigh), h.allots_eq hf hlow hhigh]
    exact Rounding.apply_mono (nearest_nonneg _ (mul_nonneg hpcapacity hg0))
      (nearest_mono (by decide) (mul_nonneg hpcapacity hg0) hproducts)

/-- One and two thirds of a hundred bytes, as near as the format gets to them. -/
theorem allots_ordered_thirds :
    let p := full 0 (.clamp 100) (.ofBits 0x3fd5555555555555)
    let q := full 0 (.clamp 100) (.ofBits 0x3fe5555555555555)
    CanHold p.fraction ∧ CanHold q.fraction ∧ p.fraction.numLe q.fraction = true
      ∧ q.allots .down = 66 ∧ q.allots .nearest = 67 ∧ q.allots .up = 67
      ∧ q.allots .up - q.allots .down ≤ 1 ∧ p.allots .up = 34 ∧ p.allots .up ≤ q.allots .up := by
  intro p q
  have hheld (bits : Nat) (hrange : inRange (.ofBits bits) = true) : CanHold (.ofBits bits) :=
    ⟨Binary.isValue_ofBits (by decide) bits, inRange_iff.mp hrange⟩
  have hp : CanHold p.fraction := hheld 0x3fd5555555555555 (by decide +kernel)
  have hq : CanHold q.fraction := hheld 0x3fe5555555555555 (by decide +kernel)
  have hle : p.fraction.numLe q.fraction = true := by decide +kernel
  obtain ⟨⟨-, -, -, -, hone⟩, hgrows⟩ := allots_ordered hq (by decide) (by decide)
  exact ⟨hp, hq, hle, by decide +kernel, by decide +kernel, by decide +kernel, hone,
    by decide +kernel, hgrows p .up hp hle (by decide) (by decide)⟩

end Quota

end PacedNet
