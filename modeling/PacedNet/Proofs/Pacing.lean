import PacedNet.Proofs.Number.Arithmetic
import PacedNet.Quota

/-!
# What a quota grants

A quota asked to pace a transfer grants no more than was asked for, and never
nothing of something: a full bucket holds one byte at least, whatever the rate.
So a paced transfer makes progress with every grant. Whether a quota refuses all
requests depends on its rate alone.
-/

namespace PacedNet

/-- A positive number or positive infinity. -/
def Binary.IsPositive {F : BinaryFormat} : Binary F → Prop
  | .nan => False
  | .infinite negative => negative = false
  | .finite negative magnitude => negative = false ∧ 0 < magnitude

theorem Binary.IsPositive.isProper {F : BinaryFormat} {x : Binary F} (h : x.IsPositive) :
    x.IsProper := by
  cases x with
  | finite s m => exact le_of_lt h.2
  | _ => trivial

namespace Quota

/-- The rate of a quota whose fraction is a proper number is one too. -/
theorem isProper_rate {q : Quota} (h : q.fraction.IsProper) : q.rate.IsProper :=
  Binary.isProper_mul (Binary.isProper_ofExact _ Rat.abs_nonneg) h

/-- Something may pass: the rate is a positive number. -/
def Passes (q : Quota) : Prop := (q.rate.numLe .zero || !q.rate.isFinite) = false

theorem isPositive_of_passes {q : Quota} (hproper : q.rate.IsProper) (h : q.Passes) :
    q.rate.IsPositive := by
  unfold Passes at h
  rw [Bool.or_eq_false_iff] at h
  obtain ⟨hpos, hfinite⟩ := h
  cases hrate : q.rate with
  | nan => simp [hrate, Binary.isFinite] at hfinite
  | infinite s => simp [hrate, Binary.isFinite] at hfinite
  | finite s m =>
      rw [hrate] at hproper hpos
      have hm : 0 ≤ m := hproper
      have hsigned : 0 < Binary.signed s m := by
        by_contra hnot
        rw [Binary.numLe_zero (not_lt.mp hnot)] at hpos
        exact absurd hpos (by simp)
      cases s with
      | true => exact absurd (show 0 < -m from hsigned) (by linarith)
      | false => exact ⟨rfl, hsigned⟩

/-- A number without a minus sign, and at least one. -/
def AtLeastOne (x : Binary64) : Prop := x = .infinite false ∨ ∃ m, 1 ≤ m ∧ x = .finite false m

/-- What is less than one, or no number, gives way to one. -/
theorem atLeastOne_greater {x : Binary64} (h : x.IsProper) : AtLeastOne (x.greater .one) := by
  cases x with
  | nan => exact Or.inr ⟨1, le_refl _, rfl⟩
  | infinite s =>
      cases s with
      | false => exact Or.inl (by decide)
      | true => exact Or.inr ⟨1, le_refl _, by decide⟩
  | finite s m =>
      obtain ⟨b, hb, hone, -⟩ := Binary.greater_one (F := .double) (s := s) fun _ => h
      exact Or.inr ⟨b, hone, hb⟩

/-- Rounding down keeps a number that is at least one so. -/
theorem atLeastOne_toIntegral {x : Binary64} (h : AtLeastOne x) :
    AtLeastOne (x.toIntegral Rat.floor) := by
  rcases h with rfl | ⟨m, hm, rfl⟩
  · exact Or.inl rfl
  · obtain ⟨b, hb, hone, -⟩ := Binary.toIntegral_floor (F := .double) hm
    exact Or.inr ⟨b, hone, hb⟩

theorem one_le_clampTo {x : Binary64} (h : AtLeastOne x) :
    1 ≤ x.clampTo 0 18446744073709551615 truncate := by
  rcases h with rfl | ⟨m, hm, rfl⟩
  · decide
  · have htruncate : 1 ≤ truncate m := by
      unfold truncate
      rw [if_neg (by linarith)]
      exact Rat.le_floor_iff.mpr (by simpa using hm)
    show 1 ≤ max 0 (min 18446744073709551615 (truncate m))
    omega

/-- A tenth, as the quota's arithmetic has it. -/
theorem tenth_eq : ∃ c, (Binary.ofDecimal false ⟨1, -1⟩ : Binary64) = .finite false c
    ∧ 0 < c ∧ c ≤ 1 :=
  ⟨3602879701896397 / 36028797018963968, by decide +kernel, by decide +kernel, by decide +kernel⟩

/-- **A burst is one byte at least**, whatever the rate. -/
theorem one_le_burst {q : Quota} (h : q.rate.IsProper) : 1 ≤ q.burst := by
  obtain ⟨c, hc, hpos, -⟩ := tenth_eq
  have htenth : (Binary.ofDecimal false ⟨1, -1⟩ : Binary64).IsProper := hc ▸ le_of_lt hpos
  have hclamp := one_le_clampTo
    (atLeastOne_toIntegral (atLeastOne_greater (Binary.isProper_mul h htenth)))
  show 1 ≤ ((burstFor q.rate).clampTo 0 18446744073709551615 truncate).toNat
  have : 1 ≤ (burstFor q.rate).clampTo 0 18446744073709551615 truncate := hclamp
  omega

/-! ## Grants -/

/-- Reserving grants all that was asked for, if anything, and leaves the rate alone. -/
theorem reserve_spec (q : Quota) (now : Instant) (bytes : Nat) :
    (q.reserve now bytes).2.rate = q.rate
      ∧ ∀ n wait, (q.reserve now bytes).1 = .granted n wait → n = bytes := by
  unfold reserve
  split
  · exact ⟨rfl, by simp⟩
  · split
    · rename_i hzero
      exact ⟨rfl, by simp [hzero, eq_comm]⟩
    · dsimp only
      split
      · split <;> exact ⟨rfl, by simp [eq_comm]⟩
      · exact ⟨rfl, by simp [eq_comm]⟩

/-- A quota refuses all requests or none. -/
theorem reserve_refused (q : Quota) (now : Instant) (bytes : Nat) :
    (q.reserve now bytes).1 = .refused ↔ ¬ q.Passes := by
  unfold reserve Passes
  split
  · rename_i hno
    simp [hno]
  · rename_i hyes
    refine iff_of_false ?_ (by simpa using hyes)
    split
    · simp
    · dsimp only
      split
      · split <;> simp
      · simp

/-- **A grant is no more than was asked for, and never nothing of something.** -/
theorem throttle_spec (q : Quota) (now : Instant) (want : Nat) :
    (q.throttle now want).2.rate = q.rate
      ∧ ∀ n wait, (q.throttle now want).1 = .granted n wait →
          n ≤ want ∧ (q.rate.IsPositive → 0 < want → 0 < n) := by
  obtain ⟨hrate, hgrant⟩ := reserve_spec q now (min want q.burst)
  refine ⟨hrate, fun n wait hn => ?_⟩
  rw [hgrant n wait hn]
  refine ⟨Nat.min_le_left _ _, fun hpos hwant => ?_⟩
  exact Nat.lt_min.mpr ⟨hwant, one_le_burst hpos.isProper⟩

end Quota

end PacedNet
