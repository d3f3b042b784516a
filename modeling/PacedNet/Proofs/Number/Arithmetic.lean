import PacedNet.Number.Reading
import PacedNet.Proofs.Number.Nearest

/-!
# Floating-point arithmetic without surprises

What arithmetic on numbers of a format may come to. Reading and multiplying give proper numbers,
whose sign is not the magnitude's. Sums, products and quotients of numbers without a minus sign have none,
and are no NaN if the other factor or the divisor is positive. A sum falls below no value of the
format that bounds the exact sum from below (`atLeast_ofRat`), however large the other term is.
-/

namespace PacedNet

theorem Decimal.toRat_nonneg (d : Decimal) : 0 ≤ d.toRat :=
  mul_nonneg (Nat.cast_nonneg _) (zpow_nonneg (by norm_num) _)

namespace Binary

variable {F : BinaryFormat} {x y : Binary F} {s t : Bool} {a b c : Rat}

/-! ## Proper numbers -/

/-- A number as formats have them: the sign is not the magnitude's. -/
def IsProper : Binary F → Prop
  | .finite _ magnitude => 0 ≤ magnitude
  | _ => True

theorem isProper_ofExact (negative : Bool) {x : Rat} (hx : 0 ≤ x) :
    (ofExact negative x : Binary F).IsProper := by
  unfold ofExact
  dsimp only
  split
  · trivial
  · exact F.nearest_nonneg hx

theorem isProper_mul (hx : x.IsProper) (hy : y.IsProper) : (x.mul y).IsProper := by
  cases x with
  | nan => trivial
  | infinite s =>
      cases y with
      | nan => trivial
      | infinite t => trivial
      | finite t b =>
          show (if b = 0 then _ else _ : Binary F).IsProper
          split <;> trivial
  | finite s a =>
      cases y with
      | nan => trivial
      | infinite t =>
          show (if a = 0 then _ else _ : Binary F).IsProper
          split <;> trivial
      | finite t b => exact isProper_ofExact _ (mul_nonneg hx hy)

theorem isProper_ofRat (a : Rat) : (ofRat a : Binary F).IsProper :=
  isProper_ofExact _ Rat.abs_nonneg

theorem isProper_ofDecimal (negative : Bool) (d : Decimal) :
    (ofDecimal negative d : Binary F).IsProper := by
  unfold ofDecimal
  split_ifs
  · exact le_refl (0 : Rat)
  · trivial
  · exact le_refl (0 : Rat)
  · exact isProper_ofExact _ d.toRat_nonneg

/-- Every bit pattern is one of a proper number. -/
theorem isProper_ofBits (bits : Nat) : (ofBits bits : Binary F).IsProper := by
  unfold ofBits
  dsimp only
  split_ifs
  · trivial
  · trivial
  · exact mul_nonneg (Nat.cast_nonneg _) (two_zpow_pos _).le
  · exact mul_nonneg (Nat.cast_nonneg _) (two_zpow_pos _).le

theorem isProper_read {text : List Char} (h : read? text = some x) : x.IsProper := by
  unfold read? at h
  dsimp only at h
  -- whichever sign the text starts with, a decimal or a word follows
  split at h
  all_goals
    split at h
    · injection h with h
      exact h ▸ isProper_ofDecimal _ _
    · split_ifs at h <;> (injection h with h; subst h; trivial)

/-! ## Order -/

theorem numLe_finite :
    (finite s a : Binary F).numLe (finite t b) = true ↔ signed s a ≤ signed t b := by
  rcases lt_trichotomy (signed s a) (signed t b) with h | h | h
  · simp [numLe, order?, h, h.le]
  · simp [numLe, order?, h]
  · simp [numLe, order?, h.not_gt, h.ne', h.not_ge]

/-- What is at most zero compares so. -/
theorem numLe_zero (h : signed s a ≤ 0) : (finite s a : Binary F).numLe .zero = true :=
  numLe_finite.mpr h

theorem numLt_finite :
    (finite s a : Binary F).numLt (finite t b) = true ↔ signed s a < signed t b := by
  rcases lt_trichotomy (signed s a) (signed t b) with h | h | h
  · simp [numLt, order?, h]
  · simp [numLt, order?, h]
  · simp [numLt, order?, h.not_gt, h.ne']

theorem numEq_finite :
    (finite s a : Binary F).numEq (finite t b) = true ↔ signed s a = signed t b := by
  rcases lt_trichotomy (signed s a) (signed t b) with h | h | h
  · simp [numEq, order?, h, h.ne]
  · simp [numEq, order?, h]
  · simp [numEq, order?, h.not_gt, h.ne']

/-! ## Numbers without a minus sign -/

/-- A number without a minus sign. -/
def IsUnsigned : Binary F → Prop
  | nan => False
  | infinite s => s = false
  | finite s m => s = false ∧ 0 ≤ m

theorem isUnsigned_ofExact (ha : 0 ≤ a) : (ofExact false a : Binary F).IsUnsigned := by
  unfold ofExact
  dsimp only
  split_ifs
  · rfl
  · exact ⟨rfl, F.nearest_nonneg ha⟩

theorem isUnsigned_ofRat (ha : 0 ≤ a) : (ofRat a : Binary F).IsUnsigned := by
  unfold ofRat
  rw [decide_eq_false (not_lt.mpr ha)]
  exact isUnsigned_ofExact Rat.abs_nonneg

theorem IsUnsigned.add (hx : x.IsUnsigned) (hy : y.IsUnsigned) : (x.add y).IsUnsigned := by
  cases x with
  | nan => exact hx
  | infinite s =>
      obtain rfl : s = false := hx
      cases y with
      | nan => exact hy
      | infinite t =>
          obtain rfl : t = false := hy
          rfl
      | finite t b => rfl
  | finite s a =>
      obtain ⟨rfl, ha⟩ := hx
      cases y with
      | nan => exact hy
      | infinite t => exact hy
      | finite t b =>
          obtain ⟨rfl, hb⟩ := hy
          show (if a + b = 0 then finite _ 0 else ofRat (a + b) : Binary F).IsUnsigned
          split_ifs
          · exact ⟨rfl, le_rfl⟩
          · exact isUnsigned_ofRat (add_nonneg ha hb)

theorem IsUnsigned.mul (hx : x.IsUnsigned) (hb : 0 < b) : (x.mul (finite false b)).IsUnsigned := by
  cases x with
  | nan => exact hx
  | infinite s =>
      obtain rfl : s = false := hx
      show (if b = 0 then _ else _ : Binary F).IsUnsigned
      rw [if_neg hb.ne']
      rfl
  | finite s a =>
      obtain ⟨rfl, ha⟩ := hx
      exact isUnsigned_ofExact (mul_nonneg ha hb.le)

theorem IsUnsigned.div (hx : x.IsUnsigned) (hb : 0 < b) : (x.div (finite false b)).IsUnsigned := by
  cases x with
  | nan => exact hx
  | infinite s =>
      obtain rfl : s = false := hx
      rfl
  | finite s a =>
      obtain ⟨rfl, ha⟩ := hx
      show (if b = 0 then _ else _ : Binary F).IsUnsigned
      rw [if_neg hb.ne']
      exact isUnsigned_ofExact (div_nonneg ha hb.le)

/-! ## Bounds from below -/

/-- A number that is so great at least. -/
def AtLeast (b : Rat) : Binary F → Prop
  | nan => False
  | infinite s => s = false
  | finite s m => b ≤ signed s m

theorem IsUnsigned.atLeast (hx : x.IsUnsigned) (hb : 0 ≤ b) : x.AtLeast (-b) := by
  cases x with
  | nan => exact hx
  | infinite s => exact hx
  | finite s m =>
      obtain ⟨rfl, hm⟩ := hx
      exact (neg_nonpos.mpr hb).trans hm

/-- A magnitude that rounding leaves in the range of the format. -/
theorem ofExact_eq (h : F.nearest a ≤ F.largest) :
    (ofExact s a : Binary F) = finite s (F.nearest a) :=
  if_neg (not_lt.mpr h)

/-- A number is rounded to no less than a value of the format that is no greater. -/
theorem atLeast_ofRat (hprecision : 0 < F.precision) (hb : 0 ≤ b) (hvalue : F.nearest b = b)
    (hlargest : b ≤ F.largest) (h : -b ≤ a) : (ofRat a : Binary F).AtLeast (-b) := by
  unfold ofRat
  by_cases ha : a < 0
  · rw [decide_eq_true ha, Rat.abs_of_nonpos ha.le]
    have hround : F.nearest (-a) ≤ b := by
      have := BinaryFormat.nearest_mono hprecision (by linarith : 0 ≤ -a) (by linarith : -a ≤ b)
      rwa [hvalue] at this
    rw [ofExact_eq (hround.trans hlargest)]
    exact neg_le_neg hround
  · rw [decide_eq_false ha]
    exact (isUnsigned_ofExact Rat.abs_nonneg).atLeast hb

/-- A number that grows stays above every value of the format it was above. -/
theorem AtLeast.add (hprecision : 0 < F.precision) (hb : 0 ≤ b) (hvalue : F.nearest b = b)
    (hlargest : b ≤ F.largest) (hx : x.AtLeast (-b)) (hy : y.IsUnsigned) :
    (x.add y).AtLeast (-b) := by
  cases x with
  | nan => exact hx
  | infinite s =>
      obtain rfl : s = false := hx
      cases y with
      | nan => exact hy
      | infinite t =>
          obtain rfl : t = false := hy
          rfl
      | finite t c => rfl
  | finite s a =>
      have ha : -b ≤ signed s a := hx
      cases y with
      | nan => exact hy
      | infinite t => exact hy
      | finite t c =>
          obtain ⟨rfl, hc⟩ := hy
          have hsum : -b ≤ signed s a + c := by linarith
          show (if signed s a + c = 0 then finite _ 0 else ofRat _ : Binary F).AtLeast (-b)
          split_ifs with hzero
          · show -b ≤ signed (s && false) 0
            rw [Bool.and_false]
            exact neg_nonpos.mpr hb
          · exact atLeast_ofRat hprecision hb hvalue hlargest hsum

/-- The lesser of a number bounded from below and a number. -/
theorem AtLeast.lesser (hx : x.AtLeast b) (hb : b ≤ signed t c) :
    ∃ s m, x.lesser (finite t c) = finite s m ∧ b ≤ signed s m ∧ signed s m ≤ signed t c := by
  unfold Binary.lesser
  cases x with
  | nan => exact absurd hx id
  | infinite s =>
      obtain rfl : s = false := hx
      exact ⟨t, c, rfl, hb, le_rfl⟩
  | finite s m =>
      rw [if_neg (by simp), if_neg (by simp)]
      by_cases hlt : (finite t c : Binary F).numLt (finite s m) = true
      · rw [if_pos hlt]
        exact ⟨t, c, rfl, hb, le_rfl⟩
      · rw [if_neg hlt]
        exact ⟨s, m, rfl, hx, not_lt.mp (mt numLt_finite.mpr hlt)⟩

/-- What is less than one gives way to one. -/
theorem greater_one (ha : s = true → 0 ≤ a) :
    ∃ b, (finite s a : Binary F).greater .one = finite false b ∧ 1 ≤ b ∧ b ≤ max 1 a := by
  unfold greater
  rw [if_neg (by simp), if_neg (by simp [one])]
  split_ifs with hless
  · exact ⟨1, rfl, le_rfl, le_max_left _ _⟩
  · have hone : signed false 1 ≤ signed s a := not_lt.mp fun hlt => hless (numLt_finite.mpr hlt)
    cases s with
    | false => exact ⟨a, rfl, hone, le_max_right _ _⟩
    | true => exact absurd hone (not_le.mpr ((neg_nonpos.mpr (ha rfl)).trans_lt zero_lt_one))

/-- Rounding down keeps a number that is at least one so. -/
theorem toIntegral_floor (ha : 1 ≤ a) :
    ∃ b, (finite false a : Binary F).toIntegral Rat.floor = finite false b ∧ 1 ≤ b ∧ b ≤ a := by
  have hfloor : 1 ≤ a.floor := Rat.le_floor_iff.mpr (by simpa using ha)
  have hone : (1 : Rat) ≤ a.floor := by exact_mod_cast hfloor
  refine ⟨a.floor, ?_, hone, Rat.floor_le a⟩
  show finite false ((a.floor : Int) : Rat).abs = _
  rw [Rat.abs_of_nonneg (zero_le_one.trans hone)]

/-! ## Magnitudes in the range of the double format -/

theorem nearest_two_pow (e : Nat) : BinaryFormat.double.nearest (2 ^ e) = 2 ^ e := by
  have hplace : BinaryFormat.double.lastPlace (2 ^ e) ≤ e := by
    rw [BinaryFormat.lastPlace_of_mem (e := e) (by simp)
      (by exact_mod_cast Nat.pow_lt_pow_right one_lt_two e.lt_succ_self)]
    have : BinaryFormat.double.precision = 53 ∧ BinaryFormat.double.minExp = -1074 := ⟨rfl, rfl⟩
    omega
  exact BinaryFormat.nearest_of_onGrid (by positivity) (by simpa using onGrid_zpow hplace)

/-- The greatest debt that a bucket comes to have is far from infinity. -/
theorem two_pow_le_largest : (2 : Rat) ^ 118 ≤ BinaryFormat.double.largest := by decide +kernel

/-- No magnitude up to a power of two is rounded to more, or to infinity. -/
theorem ofExact_of_le {s : Bool} {a : Rat} {e : Nat} (he : e ≤ 118) (ha : 0 ≤ a) (h : a ≤ 2 ^ e) :
    (ofExact s a : Binary64) = .finite s (BinaryFormat.double.nearest a)
      ∧ BinaryFormat.double.nearest a ≤ 2 ^ e := by
  have hround := BinaryFormat.nearest_mono (F := .double) (by decide) ha h
  rw [nearest_two_pow] at hround
  have hgrow : (2 : Rat) ^ e ≤ 2 ^ 118 := pow_le_pow_right₀ (by norm_num) he
  exact ⟨ofExact_eq (hround.trans (hgrow.trans two_pow_le_largest)), hround⟩

theorem ofInt_of_le {n : Int} {e : Nat} (he : e ≤ 118) (hlow : -2 ^ e ≤ n) (hhigh : n ≤ 2 ^ e) :
    (ofInt n : Binary64)
        = .finite (decide (n < 0)) (BinaryFormat.double.nearest (n : Rat).abs)
      ∧ BinaryFormat.double.nearest (n : Rat).abs ≤ 2 ^ e := by
  have hlow' : -(2 : Rat) ^ e ≤ n := by exact_mod_cast hlow
  have hhigh' : (n : Rat) ≤ 2 ^ e := by exact_mod_cast hhigh
  have habs : (n : Rat).abs ≤ 2 ^ e := by
    rcases le_total 0 (n : Rat) with hn | hn
    · rwa [Rat.abs_of_nonneg hn]
    · rw [Rat.abs_of_nonpos hn]
      linarith
  have hsign : decide ((n : Rat) < 0) = decide (n < 0) := decide_eq_decide.mpr Int.cast_lt_zero
  unfold ofInt ofRat
  rw [hsign]
  exact ofExact_of_le he Rat.abs_nonneg habs

end Binary

end PacedNet
