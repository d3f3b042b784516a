import PacedNet.Number.Rounding
import Mathlib.Algebra.Order.Field.Rat
import Mathlib.Data.Int.Log
import Mathlib.Data.Rat.Floor
import Mathlib.Tactic.Linarith
import Mathlib.Tactic.NormNum
import Mathlib.Tactic.Positivity
import Mathlib.Tactic.Ring

/-!
# Rounding to a binary format

Three laws carry all that is said of floating-point arithmetic here. Rounding keeps the order
(`nearest_mono`), it leaves the values of the format alone (`nearest_nearest`), and no value of the
format is nearer than the one it picks (`abs_nearest_sub_le`). The values of the format are the
numbers that rounding leaves alone.

Rounding is done on a grid whose spacing, the last place, depends on the number. All three laws
compare two grids by the powers of two that lie on both.
-/

namespace PacedNet

/-! ## The nearest integer -/

theorem abs_roundHalfEven_sub_le (x : Rat) : |(roundHalfEven x : Rat) - x| ≤ 1 / 2 := by
  have hlow : (x.floor : Rat) ≤ x := Rat.floor_le x
  have hhigh : x < (x.floor + 1 : Int) := Rat.lt_floor_add_one x
  push_cast at hhigh
  unfold roundHalfEven
  dsimp only
  rw [abs_le]
  split_ifs <;> push_cast <;> constructor <;> linarith

theorem roundHalfEven_mono {x y : Rat} (h : x ≤ y) : roundHalfEven x ≤ roundHalfEven y := by
  by_contra hnot
  have hstep : (roundHalfEven y : Rat) + 1 ≤ roundHalfEven x := by exact_mod_cast not_le.mp hnot
  have hx := abs_le.mp (abs_roundHalfEven_sub_le x)
  have hy := abs_le.mp (abs_roundHalfEven_sub_le y)
  -- both errors are a half at most, so the two numbers are one
  obtain rfl : x = y := by linarith
  exact hnot le_rfl

theorem roundHalfEven_intCast (n : Int) : roundHalfEven n = n := by
  have h := abs_le.mp (abs_roundHalfEven_sub_le n)
  have hlow : (roundHalfEven n : Rat) < n + 1 := by linarith
  have hhigh : (n : Rat) < roundHalfEven n + 1 := by linarith
  have hlow' : roundHalfEven n < n + 1 := by exact_mod_cast hlow
  have hhigh' : n < roundHalfEven n + 1 := by exact_mod_cast hhigh
  omega

theorem roundHalfAway_intCast {n : Int} (hn : 0 ≤ n) : roundHalfAway n = n := by
  have hn' : (0 : Rat) ≤ n := by exact_mod_cast hn
  unfold roundHalfAway
  rw [if_neg (not_lt.mpr hn')]
  have hlow : n ≤ ((n : Rat) + 1 / 2).floor := Rat.le_floor_iff.mpr (by linarith)
  have hhigh : ((n : Rat) + 1 / 2).floor < n + 1 := by
    have hfloor : ((((n : Rat) + 1 / 2).floor : Int) : Rat) < (n + 1 : Int) := by
      push_cast
      linarith [Rat.floor_le ((n : Rat) + 1 / 2)]
    exact_mod_cast hfloor
  omega

/-- No integer is nearer. -/
theorem abs_roundHalfEven_sub_le_abs (x : Rat) (n : Int) :
    |(roundHalfEven x : Rat) - x| ≤ |(n : Rat) - x| := by
  by_cases hn : roundHalfEven x = n
  · rw [hn]
  · have herror := abs_le.mp (abs_roundHalfEven_sub_le x)
    refine (abs_roundHalfEven_sub_le x).trans ?_
    rcases lt_or_gt_of_ne hn with h | h
    · have : (roundHalfEven x : Rat) + 1 ≤ n := by exact_mod_cast h
      exact le_trans (by linarith) (le_abs_self _)
    · have : (n : Rat) + 1 ≤ roundHalfEven x := by exact_mod_cast h
      exact le_trans (by linarith) (neg_le_abs _)

/-! ## The binary logarithm -/

/-- The binary logarithm of a quotient is pinned down to two candidates by those of its parts. -/
theorem div_mem_of_log2 {n d : Nat} (hn : n ≠ 0) (hd : d ≠ 0) :
    (2 : Rat) ^ ((Nat.log2 n : Int) - Nat.log2 d - 1) ≤ n / d
      ∧ (n : Rat) / d < 2 ^ ((Nat.log2 n : Int) - Nat.log2 d + 1) := by
  have hn' : ((2 : Rat) ^ (Nat.log2 n : Int) ≤ n) ∧ (n : Rat) < 2 ^ ((Nat.log2 n : Int) + 1) := by
    constructor
    · exact_mod_cast Nat.log2_self_le hn
    · exact_mod_cast (Nat.lt_log2_self (n := n))
  have hd' : ((2 : Rat) ^ (Nat.log2 d : Int) ≤ d) ∧ (d : Rat) < 2 ^ ((Nat.log2 d : Int) + 1) := by
    constructor
    · exact_mod_cast Nat.log2_self_le hd
    · exact_mod_cast (Nat.lt_log2_self (n := d))
  have htwo : (2 : Rat) ≠ 0 := by norm_num
  have hpos : (0 : Rat) < d := by exact_mod_cast Nat.pos_of_ne_zero hd
  constructor
  · rw [sub_sub, zpow_sub₀ htwo]
    exact div_le_div₀ (by positivity) hn'.1 hpos hd'.2.le
  · rw [show (Nat.log2 n : Int) - Nat.log2 d + 1 = Nat.log2 n + 1 - Nat.log2 d by ring,
      zpow_sub₀ htwo]
    exact div_lt_div₀ hn'.2 hd'.1 (zpow_nonneg (by norm_num) _) (zpow_pos (by norm_num) _)

theorem floorLog2_eq_log {x : Rat} (hx : 0 < x) : floorLog2 x = Int.log 2 x := by
  have hnum : x.num.natAbs ≠ 0 := Int.natAbs_ne_zero.mpr (Rat.num_ne_zero.mpr hx.ne')
  have hquotient : (x.num.natAbs : Rat) / x.den = x := by
    have habs : ((x.num.natAbs : Int) : Rat) = x.num :=
      congrArg _ (Int.natAbs_of_nonneg (Rat.num_nonneg.mpr hx.le))
    rw [← Int.cast_natCast, habs, Rat.num_div_den]
  obtain ⟨hlow, hhigh⟩ := div_mem_of_log2 hnum x.den_nz
  rw [hquotient] at hlow hhigh
  unfold floorLog2
  dsimp only
  generalize (Nat.log2 x.num.natAbs : Int) - (Nat.log2 x.den : Int) = e at hlow hhigh ⊢
  have hlt : Int.log 2 x < e + 1 := (Int.lt_zpow_iff_log_lt one_lt_two hx).mp hhigh
  have hle : e - 1 ≤ Int.log 2 x := (Int.zpow_le_iff_le_log one_lt_two hx).mp hlow
  have hiff : (2 : Rat) ^ e ≤ x ↔ e ≤ Int.log 2 x := Int.zpow_le_iff_le_log one_lt_two hx
  split_ifs with h
  · have := hiff.mp h
    omega
  · have := mt hiff.mpr h
    omega

/-! ## Grids -/

/-- A whole number of steps of that power of two. -/
def OnGrid (e : Int) (x : Rat) : Prop := ∃ n : Int, x = n * 2 ^ e

theorem two_zpow_pos (e : Int) : (0 : Rat) < 2 ^ e := zpow_pos (by norm_num) e

/-- A coarser grid is part of a finer one. -/
theorem OnGrid.of_le {e e' : Int} {x : Rat} (h : OnGrid e x) (he : e' ≤ e) : OnGrid e' x := by
  obtain ⟨n, rfl⟩ := h
  obtain ⟨k, rfl⟩ := Int.le.dest he
  refine ⟨n * 2 ^ k, ?_⟩
  rw [zpow_add₀ (by norm_num), zpow_natCast]
  push_cast
  ring

theorem onGrid_zpow {e e' : Int} (he : e' ≤ e) : OnGrid e' (2 ^ e) :=
  OnGrid.of_le ⟨1, by simp⟩ he

namespace BinaryFormat

variable {F : BinaryFormat} {x y p : Rat} {e : Int}

theorem lastPlace_eq (hx : 0 < x) :
    F.lastPlace x = max (Int.log 2 x - ((F.precision : Int) - 1)) F.minExp := by
  rw [lastPlace, floorLog2_eq_log hx]

theorem lastPlace_of_mem (hlow : 2 ^ e ≤ x) (hhigh : x < 2 ^ (e + 1)) :
    F.lastPlace x = max (e - ((F.precision : Int) - 1)) F.minExp := by
  have hx : 0 < x := (two_zpow_pos e).trans_le hlow
  have hge : e ≤ Int.log 2 x := (Int.zpow_le_iff_le_log one_lt_two hx).mp hlow
  have hlt : Int.log 2 x < e + 1 := (Int.lt_zpow_iff_log_lt one_lt_two hx).mp hhigh
  rw [lastPlace_eq hx, show Int.log 2 x = e by omega]

theorem lastPlace_mono (hx : 0 < x) (h : x ≤ y) : F.lastPlace x ≤ F.lastPlace y := by
  rw [lastPlace_eq hx, lastPlace_eq (hx.trans_le h)]
  have := Int.log_mono_right (b := 2) hx h
  omega

@[simp] theorem nearest_zero : F.nearest 0 = 0 := if_pos rfl

theorem nearest_eq (hx : 0 < x) :
    F.nearest x = roundHalfEven (x / 2 ^ F.lastPlace x) * 2 ^ F.lastPlace x := if_neg hx.ne'

theorem onGrid_nearest (hx : 0 < x) : OnGrid (F.lastPlace x) (F.nearest x) := ⟨_, nearest_eq hx⟩

/-- On its own grid nothing is nearer to a number than what it is rounded to. -/
theorem abs_nearest_sub_le_of_onGrid (hx : 0 < x) (hp : OnGrid (F.lastPlace x) p) :
    |F.nearest x - x| ≤ |p - x| := by
  obtain ⟨n, rfl⟩ := hp
  have hunit := two_zpow_pos (F.lastPlace x)
  rw [nearest_eq hx]
  generalize (2 : Rat) ^ F.lastPlace x = unit at hunit ⊢
  have hscale : ∀ m : Int, |(m : Rat) * unit - x| = |(m : Rat) - x / unit| * unit := by
    intro m
    rw [← abs_of_pos hunit, ← abs_mul, abs_of_pos hunit, sub_mul, div_mul_cancel₀ _ hunit.ne']
  rw [hscale, hscale]
  exact mul_le_mul_of_nonneg_right (abs_roundHalfEven_sub_le_abs _ _) hunit.le

/-- What lies above a number on its own grid lies above what it is rounded to. -/
theorem nearest_le_of_onGrid (hx : 0 < x) (hp : OnGrid (F.lastPlace x) p) (h : x ≤ p) :
    F.nearest x ≤ p := by
  obtain ⟨n, rfl⟩ := hp
  have hunit := two_zpow_pos (F.lastPlace x)
  have hround := roundHalfEven_mono ((div_le_iff₀ hunit).mpr h)
  rw [roundHalfEven_intCast] at hround
  rw [nearest_eq hx]
  exact mul_le_mul_of_nonneg_right (by exact_mod_cast hround) hunit.le

/-- What lies below a number on its own grid lies below what it is rounded to. -/
theorem le_nearest_of_onGrid (hx : 0 < x) (hp : OnGrid (F.lastPlace x) p) (h : p ≤ x) :
    p ≤ F.nearest x := by
  obtain ⟨n, rfl⟩ := hp
  have hunit := two_zpow_pos (F.lastPlace x)
  have hround := roundHalfEven_mono ((le_div_iff₀ hunit).mpr h)
  rw [roundHalfEven_intCast] at hround
  rw [nearest_eq hx]
  exact mul_le_mul_of_nonneg_right (by exact_mod_cast hround) hunit.le

theorem nearest_nonneg (F : BinaryFormat) {x : Rat} (hx : 0 ≤ x) : 0 ≤ F.nearest x := by
  rcases hx.eq_or_lt with rfl | hx
  · exact nearest_zero.ge
  · exact le_nearest_of_onGrid hx ⟨0, by simp⟩ hx.le

/-- Between two numbers of which the greater has the coarser grid there is a power of two that lies
on both grids. -/
theorem exists_zpow_between (hx : 0 < x) (hlt : F.lastPlace x < F.lastPlace y) (h : x ≤ y)
    (hprecision : 0 < F.precision) :
    ∃ e, x < 2 ^ e ∧ (2 : Rat) ^ e ≤ y ∧ F.lastPlace y ≤ e := by
  have hy := hx.trans_le h
  have hlast := lastPlace_eq (F := F) hx
  rw [lastPlace_eq hy] at hlt ⊢
  refine ⟨Int.log 2 y, (Int.lt_zpow_iff_log_lt one_lt_two hx).mpr (by omega),
    Int.zpow_log_le_self one_lt_two hy, by omega⟩

/-- **Rounding keeps the order.** -/
theorem nearest_mono (hprecision : 0 < F.precision) (hx : 0 ≤ x) (h : x ≤ y) :
    F.nearest x ≤ F.nearest y := by
  rcases hx.eq_or_lt with rfl | hx
  · rw [nearest_zero]
    exact nearest_nonneg F h
  · have hy := hx.trans_le h
    rcases (lastPlace_mono (F := F) hx h).eq_or_lt with heq | hlt
    · have hunit := two_zpow_pos (F.lastPlace y)
      rw [nearest_eq hx, nearest_eq hy, heq]
      have hround := roundHalfEven_mono (div_le_div_of_nonneg_right h hunit.le)
      exact mul_le_mul_of_nonneg_right (by exact_mod_cast hround) hunit.le
    · obtain ⟨e, hxe, hey, he⟩ := exists_zpow_between hx hlt h hprecision
      exact (nearest_le_of_onGrid hx (onGrid_zpow (by omega)) hxe.le).trans
        (le_nearest_of_onGrid hy (onGrid_zpow he) hey)

theorem nearest_of_onGrid (hx : 0 < x) (h : OnGrid (F.lastPlace x) x) : F.nearest x = x :=
  le_antisymm (nearest_le_of_onGrid hx h le_rfl) (le_nearest_of_onGrid hx h le_rfl)

/-- **Rounding leaves the values of the format alone.** -/
theorem nearest_nearest (hprecision : 0 < F.precision) (hx : 0 ≤ x) :
    F.nearest (F.nearest x) = F.nearest x := by
  rcases hx.eq_or_lt with rfl | hx
  · rw [nearest_zero, nearest_zero]
  rcases (nearest_nonneg F hx.le).eq_or_lt with hzero | hpos
  · rw [← hzero, nearest_zero]
  refine nearest_of_onGrid hpos ?_
  rcases le_or_gt (F.lastPlace (F.nearest x)) (F.lastPlace x) with hle | hlt
  · exact (onGrid_nearest hx).of_le hle
  · -- rounding up into the next binade stops at the power of two where it begins
    have hup : x ≤ F.nearest x := by
      by_contra hdown
      exact absurd (lastPlace_mono hpos (not_le.mp hdown).le) (not_le.mpr hlt)
    obtain ⟨e, hxe, hle, he⟩ := exists_zpow_between hx hlt hup hprecision
    have heq : F.nearest x = 2 ^ e :=
      le_antisymm (nearest_le_of_onGrid hx (onGrid_zpow (hlt.le.trans he)) hxe.le) hle
    rw [heq] at he ⊢
    exact onGrid_zpow he

/-- **No value of the format is nearer.** -/
theorem abs_nearest_sub_le (hprecision : 0 < F.precision) (hx : 0 ≤ x) (hp : 0 ≤ p)
    (hvalue : F.nearest p = p) : |F.nearest x - x| ≤ |p - x| := by
  rcases hx.eq_or_lt with rfl | hx
  · rw [nearest_zero, sub_zero, abs_zero]
    exact abs_nonneg _
  rcases hp.eq_or_lt with rfl | hp
  · exact abs_nearest_sub_le_of_onGrid hx ⟨0, by simp⟩
  rcases le_or_gt (F.lastPlace x) (F.lastPlace p) with hle | hlt
  · exact abs_nearest_sub_le_of_onGrid hx (hvalue ▸ onGrid_nearest hp |>.of_le hle)
  · -- a value of a finer grid is farther away than the power of two between them
    have hbelow : p ≤ x := by
      by_contra habove
      exact absurd (lastPlace_mono hx (not_le.mp habove).le) (not_le.mpr hlt)
    obtain ⟨e, hpe, hex, he⟩ := exists_zpow_between hp hlt hbelow hprecision
    calc |F.nearest x - x| ≤ |2 ^ e - x| := abs_nearest_sub_le_of_onGrid hx (onGrid_zpow he)
      _ ≤ |p - x| := by
        rw [abs_of_nonpos (by linarith), abs_of_nonpos (by linarith)]
        linarith

/-- What is added to a value of the format counts twice at most. -/
theorem nearest_add_le (hprecision : 0 < F.precision) (hp : 0 ≤ p) (hvalue : F.nearest p = p)
    (hx : 0 ≤ x) : F.nearest (p + x) ≤ p + 2 * x := by
  have h := abs_nearest_sub_le hprecision (add_nonneg hp hx) hp hvalue
  rw [show p - (p + x) = -x by ring, abs_neg, abs_of_nonneg hx] at h
  linarith [(abs_le.mp h).2]

end BinaryFormat

end PacedNet
