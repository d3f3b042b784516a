import PacedNet.Proofs.Admission
import PacedNet.Proofs.Number.Precision
import PacedNet.Proofs.Pacing

/-!
# What a quota may owe

A grant on credit leaves a bucket in debt. Debt adds up from call to call, and the rate it is
divided by may be changed at any time. Whatever the history, the debt is a number of the format
within four times of what the bucket was charged: the charge is rounded once, and so is the sum
(`sub_bytes`). The rate is a number too, and zero or positive, so the wait is never a NaN.

But it may be longer than any duration, and then the call ends in a fault and not with a refusal
(`throttle_endless`). That happens exactly when the debt takes 2 ^ 64 seconds or more, up to
rounding, and never to a quota that was charged no more than its rate pays off in 2 ^ 61 seconds
(`InUse.waits`).
-/

namespace PacedNet

namespace Duration

theorem isUnsigned_toSeconds (d : Duration) : (toSeconds d).IsUnsigned := by
  have hnanos : (Binary.ofInt nanosPerSecond : Binary64) = .finite false 1000000000 := by
    decide +kernel
  have hwhole : ∀ n : Nat, (Binary.ofInt n : Binary64).IsUnsigned := fun n =>
    Binary.isUnsigned_ofRat (by exact_mod_cast n.zero_le)
  unfold toSeconds
  rw [hnanos]
  exact (hwhole _).add ((hwhole _).div (by norm_num))

/-- Seconds that fit are rounded to seconds that fit. -/
theorem nearest_le_of_lt {x : Rat} (hx : 0 ≤ x) (h : x < 2 ^ 64 - 2 ^ 10) :
    BinaryFormat.double.nearest x ≤ 2 ^ 64 - 2 ^ 11 := by
  rcases lt_or_ge x (2 ^ 63) with hlow | hhigh
  · have hround := BinaryFormat.nearest_mono (F := .double) (by decide) hx hlow.le
    rw [Binary.nearest_two_pow] at hround
    linarith
  · -- in the last binade the values are the multiples of 2 ^ 11
    have hplace : BinaryFormat.double.lastPlace x = 11 :=
      BinaryFormat.lastPlace_of_mem (e := 63) (by exact_mod_cast hhigh)
        (by norm_num at h ⊢; linarith)
    have hsteps : (roundHalfEven (x / 2 ^ (11 : Int)) : Rat) < 2 ^ 53 := by
      have herror := abs_le.mp (abs_roundHalfEven_sub_le (x / 2 ^ (11 : Int)))
      have hscaled : x / 2 ^ (11 : Int) < 2 ^ 53 - 1 / 2 := by
        rw [div_lt_iff₀ (by norm_num)]
        norm_num at h ⊢
        exact h
      linarith
    have hlast : (roundHalfEven (x / 2 ^ (11 : Int)) : Rat) ≤ (2 ^ 53 - 1 : Int) :=
      Int.cast_le.mpr (Int.le_sub_one_of_lt (by exact_mod_cast hsteps))
    rw [BinaryFormat.nearest_eq (by linarith), hplace]
    calc (roundHalfEven (x / 2 ^ (11 : Int)) : Rat) * 2 ^ (11 : Int)
        ≤ (2 ^ 53 - 1 : Int) * 2 ^ (11 : Int) := mul_le_mul_of_nonneg_right hlast (by norm_num)
      _ = 2 ^ 64 - 2 ^ 11 := by norm_num

/-- Seconds that are a number make a duration exactly if they are rounded to less than 2 ^ 64. -/
theorem ofSeconds?_finite {x : Rat} :
    (x ≤ 2 ^ 64 - 2 ^ 11 → ∃ d, ofSeconds? (.finite false x) = some d ∧ d < 2 ^ 64 * nanosPerSecond)
      ∧ (2 ^ 64 ≤ x → ofSeconds? (.finite false x) = none) := by
  unfold ofSeconds? nanosPerSecond
  dsimp only
  refine ⟨fun h => ?_, fun h => ?_⟩
  · have hround := roundHalfEven_mono
      (by push_cast; linarith : x * (1000000000 : Nat) ≤ ((2 ^ 64 - 2 ^ 11) * 1000000000 : Int))
    rw [roundHalfEven_intCast] at hround
    have hfits : (roundHalfEven (x * (1000000000 : Nat))).toNat < 2 ^ 64 * 1000000000 := by omega
    exact ⟨_, if_pos hfits, hfits⟩
  · have hround := roundHalfEven_mono
      (by push_cast; linarith : ((2 ^ 64 * 1000000000 : Int) : Rat) ≤ x * (1000000000 : Nat))
    rw [roundHalfEven_intCast] at hround
    rw [if_neg (by omega)]

/-- **When seconds make a duration.** -/
theorem ofSeconds?_ofExact {x : Rat} (hx : 0 ≤ x) :
    (x < 2 ^ 64 - 2 ^ 10 →
        ∃ d, ofSeconds? (.ofExact false x) = some d ∧ d < 2 ^ 64 * nanosPerSecond)
      ∧ (2 ^ 64 - 2 ^ 10 ≤ x → ofSeconds? (.ofExact false x) = none) := by
  refine ⟨fun h => ?_, fun h => ?_⟩
  · have hround := nearest_le_of_lt hx h
    rw [Binary.ofExact_eq (hround.trans (by decide +kernel))]
    exact ofSeconds?_finite.1 hround
  · have hround := BinaryFormat.nearest_mono (F := .double) (by decide) (by norm_num) h
    rw [show BinaryFormat.double.nearest (2 ^ 64 - 2 ^ 10) = 2 ^ 64 by decide +kernel] at hround
    unfold Binary.ofExact
    dsimp only
    split_ifs
    · rfl
    · exact ofSeconds?_finite.2 hround

end Duration

namespace Quota

/-! ## Rates and bursts -/

/-- What constructors and setters accept: a number from zero to one. -/
structure IsShare (fraction : Binary64) : Prop where
  proper : fraction.IsProper
  inRange : Quota.inRange fraction = true

/-- A share has no minus sign, unless it is zero. -/
theorem IsShare.eq_finite {fraction : Binary64} (h : IsShare fraction) :
    ∃ s m, fraction = .finite s m ∧ 0 ≤ m ∧ m ≤ 1 ∧ (s = true → m = 0) := by
  obtain ⟨hproper, hrange⟩ := h
  obtain ⟨hlow, hhigh⟩ := (Bool.and_eq_true _ _).mp hrange
  cases fraction with
  | nan => exact absurd hlow (by decide)
  | infinite s =>
      cases s with
      | false => exact absurd hhigh (by decide)
      | true => exact absurd hlow (by decide)
  | finite s m =>
      have hm : 0 ≤ m := hproper
      have hlow' : 0 ≤ Binary.signed s m := Binary.numLe_finite.mp hlow
      have hhigh' : Binary.signed s m ≤ 1 := Binary.numLe_finite.mp hhigh
      cases s with
      | false => exact ⟨false, m, rfl, hm, hhigh', by simp⟩
      | true =>
          have hzero : m = 0 := le_antisymm (neg_nonneg.mp hlow') hm
          exact ⟨true, m, rfl, hm, by linarith, fun _ => hzero⟩

/-- A share of what fits 64 bits fits 64 bits. -/
theorem mul_share {n : Int} (hlow : -2 ^ 63 ≤ n) (hhigh : n ≤ 2 ^ 63) {fraction : Binary64}
    (h : IsShare fraction) :
    ∃ s r, (Binary.ofInt n).mul fraction = .finite s r ∧ 0 ≤ r ∧ r ≤ 2 ^ 63
      ∧ (0 ≤ n → s = true → r = 0) := by
  obtain ⟨t, m, rfl, hm, hone, hsign⟩ := h.eq_finite
  obtain ⟨hn, hfits⟩ := Binary.ofInt_of_le (by norm_num) hlow hhigh
  have hc := BinaryFormat.double.nearest_nonneg (Rat.abs_nonneg (x := (n : Rat)))
  rw [hn]
  generalize BinaryFormat.double.nearest (n : Rat).abs = c at hfits hc ⊢
  have hproduct : c * m ≤ 2 ^ 63 := (mul_le_of_le_one_right hc hone).trans hfits
  obtain ⟨hfinite, hround⟩ :=
    Binary.ofExact_of_le (s := decide (n < 0) != t) (by norm_num) (mul_nonneg hc hm) hproduct
  refine ⟨_, _, hfinite, BinaryFormat.nearest_nonneg _ (mul_nonneg hc hm), hround, ?_⟩
  intro hpos ht
  rw [decide_eq_false (not_lt.mpr hpos), Bool.false_bne] at ht
  rw [hsign ht, mul_zero, BinaryFormat.nearest_zero]

theorem rate_eq_finite {q : Quota} (h : IsShare q.fraction) :
    ∃ s r, q.rate = .finite s r ∧ 0 ≤ r ∧ r ≤ 2 ^ 63 ∧ (s = true → r = 0) := by
  have hlow := q.capacity.lower
  have hhigh := q.capacity.upper
  obtain ⟨s, r, hrate, hr, hfits, hsign⟩ :=
    mul_share (n := max q.capacity.bytes 0) (by omega) (by omega) h
  exact ⟨s, r, hrate, hr, hfits, hsign (le_max_right _ _)⟩

/-- The burst of a rate that fits 64 bits fits 64 bits. -/
theorem burstFor_finite {s : Bool} {r : Rat} (hr : 0 ≤ r) (hfits : r ≤ 2 ^ 63) :
    ∃ b, burstFor (.finite s r) = .finite false b ∧ 1 ≤ b ∧ b ≤ 2 ^ 63 := by
  obtain ⟨c, hc, hpos, hone⟩ := tenth_eq
  have hproduct : r * c ≤ 2 ^ 63 := (mul_le_of_le_one_right hr hone).trans hfits
  obtain ⟨hfinite, hround⟩ :=
    Binary.ofExact_of_le (s := s != false) (by norm_num) (mul_nonneg hr hpos.le) hproduct
  have hm := BinaryFormat.double.nearest_nonneg (mul_nonneg hr hpos.le)
  have hmul : (Binary.finite s r : Binary64).mul (.ofDecimal false ⟨1, -1⟩)
      = .finite (s != false) (BinaryFormat.double.nearest (r * c)) := by
    rw [hc, ← hfinite]
    rfl
  obtain ⟨v, hgreater, hv1, hv⟩ :=
    Binary.greater_one (F := .double) (s := s != false) fun _ => hm
  obtain ⟨b, hfloor, hb1, hb⟩ := Binary.toIntegral_floor (F := .double) hv1
  refine ⟨b, ?_, hb1, (hb.trans hv).trans (max_le (by norm_num) hround)⟩
  unfold burstFor
  rw [hmul, hgreater, hfloor]

/-! ## Debt -/

/-- A number of the format that a bucket may owe, within a limit. -/
structure IsDebt (limit debt : Rat) : Prop where
  nonneg : 0 ≤ debt
  value : BinaryFormat.double.nearest debt = debt
  bounded : debt ≤ 2 ^ 118
  limited : debt ≤ limit

theorem isDebt_zero {limit : Rat} (h : 0 ≤ limit) : IsDebt limit 0 :=
  ⟨le_rfl, BinaryFormat.nearest_zero, by norm_num, h⟩

/-- What a bucket holds: tokens, or a debt. -/
structure Holds (limit : Rat) (overdrawn : Bool) (amount : Rat) : Prop where
  nonneg : 0 ≤ amount
  debt : overdrawn = true → IsDebt limit amount

/-- What a bucket owes, if it owes anything. -/
theorem Holds.exists_debt {limit amount : Rat} {overdrawn : Bool} (hlimit : 0 ≤ limit)
    (h : Holds limit overdrawn amount) :
    ∃ debt, IsDebt limit debt ∧ -debt ≤ Binary.signed overdrawn amount := by
  cases overdrawn with
  | true => exact ⟨amount, h.debt rfl, le_rfl⟩
  | false => exact ⟨0, isDebt_zero hlimit, neg_zero.le.trans h.nonneg⟩

/-- A quota as calls find it, with a debt of no more than that. -/
structure Sound (limit : Rat) (q : Quota) : Prop where
  share : IsShare q.fraction
  bucket : ∃ overdrawn amount, q.bucket.tokens = .finite overdrawn amount
    ∧ Holds limit overdrawn amount

/-- Time fills a bucket up to the burst, and never takes from it. -/
theorem refill_finite {q : Quota} {limit debt rate : Rat} (hdebt : IsDebt limit debt)
    (hold : q.bucket.tokens.AtLeast (-debt)) (hrate : q.rate = .finite false rate) (hpos : 0 < rate)
    (hfits : rate ≤ 2 ^ 63) (now : Instant) :
    ∃ s m, q.refill now = .finite s m ∧ -debt ≤ Binary.signed s m ∧ Binary.signed s m ≤ 2 ^ 63 := by
  obtain ⟨burst, hburst, hone, hburst63⟩ := burstFor_finite (s := false) hpos.le hfits
  have hearned := (Duration.isUnsigned_toSeconds (now - q.bucket.refilled)).mul hpos
  have hnew := hold.add (by decide) hdebt.nonneg hdebt.value
    (hdebt.bounded.trans Binary.two_pow_le_largest) hearned
  have hbelow : -debt ≤ Binary.signed false burst := by
    have := hdebt.nonneg
    show -debt ≤ burst
    linarith
  obtain ⟨s, m, heq, hlow, hhigh⟩ := hnew.lesser hbelow
  refine ⟨s, m, ?_, hlow, hhigh.trans hburst63⟩
  unfold refill
  rw [hrate, hburst]
  exact heq

/-- A number of bytes, as the quota's arithmetic has it. -/
theorem ofInt_bytes {bytes : Nat} (h : bytes < 2 ^ 64) :
    ∃ g, (Binary.ofInt bytes : Binary64) = .finite false g ∧ 0 ≤ g ∧ g ≤ 2 ^ 64
      ∧ g ≤ 2 * bytes := by
  obtain ⟨hfinite, hfits⟩ :=
    Binary.ofInt_of_le (n := bytes) (e := 64) (by norm_num) (by omega) (by omega)
  have hbytes : (0 : Rat) ≤ bytes := Nat.cast_nonneg bytes
  rw [decide_eq_false (by omega), Int.cast_natCast, Rat.abs_of_nonneg hbytes] at hfinite
  rw [Int.cast_natCast, Rat.abs_of_nonneg hbytes] at hfits
  have htwice := BinaryFormat.nearest_add_le (F := .double) (by decide) le_rfl
    BinaryFormat.nearest_zero hbytes
  rw [zero_add, zero_add] at htwice
  exact ⟨_, hfinite, BinaryFormat.nearest_nonneg _ hbytes, hfits, htwice⟩

/-- What is taken on credit counts twice at most. -/
theorem ofRat_overdrawn {limit sum debt g : Rat} (hdebt : IsDebt limit debt) (hg : 0 ≤ g)
    (hfits : g ≤ 2 ^ 64) (hneg : sum < 0) (hlow : -sum ≤ debt + g) :
    ∃ n, (Binary.ofRat sum : Binary64) = .finite true n ∧ IsDebt (limit + 2 * g) n := by
  have hprecision : 0 < BinaryFormat.double.precision := by decide
  have hpos : 0 ≤ -sum := by linarith
  have hmono := BinaryFormat.nearest_mono hprecision hpos hlow
  have hlarge := BinaryFormat.nearest_mono hprecision (add_nonneg hdebt.nonneg hg)
    (add_le_add hdebt.bounded hfits)
  -- a charge is less than half a last place of the greatest debt, which therefore stays
  rw [show BinaryFormat.double.nearest (2 ^ 118 + 2 ^ 64) = 2 ^ 118 by decide +kernel] at hlarge
  have hadd := BinaryFormat.nearest_add_le hprecision hdebt.nonneg hdebt.value hg
  have hlimited := hdebt.limited
  refine ⟨BinaryFormat.double.nearest (-sum), ?_, BinaryFormat.nearest_nonneg _ hpos,
    BinaryFormat.nearest_nearest hprecision hpos, hmono.trans hlarge, by linarith⟩
  unfold Binary.ofRat
  rw [decide_eq_true hneg, Rat.abs_of_nonpos hneg.le]
  exact Binary.ofExact_eq ((hmono.trans hlarge).trans Binary.two_pow_le_largest)

/-- Charging a bucket leaves tokens, or a debt that grew by four times the charge at most. -/
theorem sub_bytes {s : Bool} {m limit debt : Rat} {bytes : Nat} (hdebt : IsDebt limit debt)
    (hlow : -debt ≤ Binary.signed s m) (hhigh : Binary.signed s m ≤ 2 ^ 63)
    (hbytes : bytes < 2 ^ 64) :
    ∃ t n, (Binary.finite s m : Binary64).sub (.ofInt bytes) = .finite t n
      ∧ Holds (limit + 4 * bytes) t n := by
  obtain ⟨g, hg, hgpos, hfits, htwice⟩ := ofInt_bytes hbytes
  have hlimit : 0 ≤ limit := hdebt.nonneg.trans hdebt.limited
  rw [hg]
  show ∃ t n, (if Binary.signed s m + -g = 0 then .finite (s && true) 0
    else .ofRat (Binary.signed s m + -g) : Binary64) = _ ∧ _
  generalize hsum : Binary.signed s m + -g = sum
  split_ifs with hzero
  · exact ⟨_, 0, rfl, le_rfl, fun _ => isDebt_zero (by positivity)⟩
  · rcases lt_or_ge sum 0 with hneg | hpos
    · obtain ⟨n, heq, hn⟩ := ofRat_overdrawn hdebt hgpos hfits hneg (by linarith)
      have hlimited := hn.limited
      exact ⟨true, n, heq, hn.nonneg, fun _ => { hn with limited := by linarith }⟩
    · obtain ⟨hfinite, -⟩ :=
        Binary.ofExact_of_le (s := false) (e := 63) (by norm_num) hpos (by linarith)
      refine ⟨false, BinaryFormat.double.nearest sum, ?_, BinaryFormat.nearest_nonneg _ hpos,
        by simp⟩
      unfold Binary.ofRat
      rw [decide_eq_false (not_lt.mpr hpos), Rat.abs_of_nonneg hpos, hfinite]

/-- Something may pass exactly if the rate is not zero. -/
theorem passes_iff {q : Quota} {s : Bool} {rate : Rat} (hrate : q.rate = .finite s rate)
    (hsign : s = true → rate = 0) : q.Passes ↔ 0 < rate := by
  have hsigned : Binary.signed s rate = rate := by
    cases s with
    | false => rfl
    | true => exact (congrArg Neg.neg (hsign rfl)).trans (neg_zero.trans (hsign rfl).symm)
  have hle : q.rate.numLe .zero = true ↔ rate ≤ 0 := by
    rw [hrate]
    refine Binary.numLe_finite.trans ?_
    rw [hsigned]
    rfl
  have hfinite : q.rate.isFinite = true := by rw [hrate]; rfl
  unfold Passes
  rw [hfinite, Bool.not_true, Bool.or_false, ← Bool.not_eq_true, hle, not_le]

theorem reserve_of_not_passes {q : Quota} {bytes : Nat} {now : Instant} (h : ¬ q.Passes) :
    q.reserve now bytes = (.refused, q) :=
  if_pos (eq_true_of_ne_false h)

theorem reserve_zero {q : Quota} {now : Instant} (h : q.Passes) :
    q.reserve now 0 = (.granted 0 0, q) :=
  (if_neg (ne_true_of_eq_false h)).trans (if_pos rfl)

/-- A rate is zero, and nothing passes, or a positive number. -/
theorem rate_cases {q : Quota} (h : IsShare q.fraction) :
    ¬ q.Passes ∧ (∃ s, q.rate = .finite s 0)
      ∨ q.Passes ∧ ∃ rate, q.rate = .finite false rate ∧ 0 < rate ∧ rate ≤ 2 ^ 63 := by
  obtain ⟨s, rate, hrate, hnonneg, hfits, hsign⟩ := rate_eq_finite h
  have hpasses := passes_iff hrate hsign
  rcases hnonneg.eq_or_lt with rfl | hpos
  · exact .inl ⟨fun hp => lt_irrefl _ (hpasses.mp hp), s, hrate⟩
  · cases s with
    | false => exact .inr ⟨hpasses.mpr hpos, rate, hrate, hpos, hfits⟩
    | true => exact absurd (hsign rfl) hpos.ne'

/-- What asking a sound quota for bytes comes to. -/
inductive Outcome (limit : Rat) (q : Quota) (now : Instant) (bytes : Nat) :
    Grant × Quota → Prop where
  | refused {s : Bool} (hrate : q.rate = .finite s 0) : Outcome limit q now bytes (.refused, q)
  /-- Nothing was asked for. -/
  | nothing {rate : Rat} (hrate : q.rate = .finite false rate) (hpos : 0 < rate)
      (hbytes : bytes = 0) : Outcome limit q now bytes (.granted 0 0, q)
  | granted {rate amount : Rat} {overdrawn : Bool} {wait : Duration} (hbytes : 0 < bytes)
      (hrate : q.rate = .finite false rate) (hpos : 0 < rate)
      (hholds : Holds (limit + 4 * bytes) overdrawn amount)
      (hwait : wait < 2 ^ 64 * Duration.nanosPerSecond)
      (hshort : overdrawn = true → amount < (2 ^ 64 - 2 ^ 10) * rate) :
      Outcome limit q now bytes
        (.granted bytes wait, { q with bucket := ⟨.finite overdrawn amount, now⟩ })
  | endless {rate debt : Rat} (hbytes : 0 < bytes) (hrate : q.rate = .finite false rate)
      (hpos : 0 < rate) (hdebt : IsDebt (limit + 4 * bytes) debt)
      (hlong : (2 ^ 64 - 2 ^ 10) * rate ≤ debt) :
      Outcome limit q now bytes (.endless, { q with bucket := ⟨.finite true debt, now⟩ })

/-- A debt is paid off at a positive rate, or would take longer than any duration. -/
theorem outcome_of_holds {limit rate n : Rat} {q : Quota} {bytes : Nat} {now : Instant} {t : Bool}
    (hpasses : q.Passes) (hbytes : 0 < bytes) (hrate : q.rate = .finite false rate)
    (hpos : 0 < rate) (htokens : (q.refill now).sub (.ofInt bytes) = .finite t n)
    (hn : Holds (limit + 4 * bytes) t n) : Outcome limit q now bytes (q.reserve now bytes) := by
  have hbound : 0 < (2 ^ 64 - 2 ^ 10) * rate := mul_pos (by norm_num) hpos
  unfold reserve
  rw [show (q.rate.numLe .zero || !q.rate.isFinite) = false from hpasses, if_neg (by simp),
    if_neg hbytes.ne']
  dsimp only
  rw [htokens]
  cases t with
  | false =>
      have hnone : ¬ Binary.zero.numLt (Binary.finite false n : Binary64).neg = true := fun h =>
        absurd (Binary.numLt_finite.mp h) (not_lt.mpr (neg_nonpos.mpr hn.nonneg))
      rw [if_neg hnone]
      exact .granted hbytes hrate hpos hn (by decide) (by simp)
  | true =>
      rcases hn.nonneg.eq_or_lt with rfl | howed
      · exact .granted hbytes hrate hpos hn (by decide) fun _ => hbound
      have hsome : Binary.zero.numLt (Binary.finite true n : Binary64).neg = true :=
        Binary.numLt_finite.mpr howed
      have hdiv : (Binary.finite true n : Binary64).neg.div q.rate = .ofExact false (n / rate) := by
        rw [hrate]
        exact if_neg hpos.ne'
      rw [if_pos hsome, hdiv]
      obtain ⟨hfits, hend⟩ := Duration.ofSeconds?_ofExact (div_nonneg hn.nonneg hpos.le)
      rcases lt_or_ge n ((2 ^ 64 - 2 ^ 10) * rate) with hlt | hge
      · obtain ⟨wait, hwait, hless⟩ := hfits ((div_lt_iff₀ hpos).mpr hlt)
        rw [hwait]
        exact .granted hbytes hrate hpos hn hless fun _ => hlt
      · rw [hend ((le_div_iff₀ hpos).mpr hge)]
        exact .endless hbytes hrate hpos (hn.debt rfl) hge

namespace Outcome

variable {limit : Rat} {q : Quota} {now : Instant} {bytes : Nat} {r : Grant × Quota}

theorem refused_iff (h : Outcome limit q now bytes r) :
    r.1 = .refused ↔ ∃ s, q.rate = .finite s 0 := by
  have hzero : ∀ {rate : Rat}, q.rate = .finite false rate → 0 < rate →
      ¬ ∃ s, q.rate = .finite s 0 := by
    rintro rate hrate hpos ⟨s, hstuck⟩
    exact hpos.ne' (Binary.finite.inj (hrate.symm.trans hstuck)).2
  cases h with
  | refused hrate => exact iff_of_true rfl ⟨_, hrate⟩
  | nothing hrate hpos => exact iff_of_false (by simp) (hzero hrate hpos)
  | granted _ hrate hpos => exact iff_of_false (by simp) (hzero hrate hpos)
  | endless _ hrate hpos => exact iff_of_false (by simp) (hzero hrate hpos)

theorem wait_lt {n : Nat} {wait : Duration} (h : Outcome limit q now bytes r)
    (hr : r.1 = .granted n wait) : n = bytes ∧ wait < 2 ^ 64 * Duration.nanosPerSecond := by
  cases h with
  | refused => exact absurd hr (by simp)
  | nothing _ _ hbytes =>
      obtain ⟨rfl, rfl⟩ := Grant.granted.inj hr
      exact ⟨hbytes.symm, by decide⟩
  | granted _ _ _ _ hwait =>
      obtain ⟨rfl, rfl⟩ := Grant.granted.inj hr
      exact ⟨rfl, hwait⟩
  | endless => exact absurd hr (by simp)

theorem endless_iff (h : Outcome limit q now bytes r) :
    r.1 = .endless ↔ 0 < bytes ∧ ∃ rate debt, q.rate = .finite false rate ∧ 0 < rate
      ∧ r.2.bucket.tokens = .finite true debt ∧ (2 ^ 64 - 2 ^ 10) * rate ≤ debt := by
  cases h with
  | refused hrate =>
      refine iff_of_false (by simp) ?_
      rintro ⟨-, rate, debt, hrate', hpos, -⟩
      exact hpos.ne (Binary.finite.inj (hrate.symm.trans hrate')).2
  | nothing _ _ hbytes => exact iff_of_false (by simp) fun hlong => hlong.1.ne' hbytes
  | granted _ hrate _ _ _ hshort =>
      refine iff_of_false (by simp) ?_
      rintro ⟨-, rate, debt, hrate', -, htokens, hlong⟩
      obtain ⟨-, rfl⟩ := Binary.finite.inj (hrate.symm.trans hrate')
      obtain ⟨hover, rfl⟩ := Binary.finite.inj htokens
      exact absurd (hshort hover) (not_lt.mpr hlong)
  | endless hbytes hrate hpos _ hlong =>
      exact iff_of_true rfl ⟨hbytes, _, _, hrate, hpos, rfl, hlong⟩

/-- No debt within what the rate pays off in 2 ^ 63 seconds makes anybody wait without end. -/
theorem ne_endless {rate : Rat} (h : Outcome limit q now bytes r)
    (hrate : q.rate = .finite false rate) (hcovered : limit + 4 * bytes ≤ 2 ^ 63 * rate) :
    r.1 ≠ .endless := by
  cases h with
  | refused => simp
  | nothing => simp
  | granted => simp
  | endless _ hrate' hpos hdebt hlong =>
      obtain ⟨-, rfl⟩ := Binary.finite.inj (hrate.symm.trans hrate')
      have := hdebt.limited
      linarith

end Outcome

/-- **What asking for bytes comes to.** -/
theorem reserve_outcome {limit : Rat} {q : Quota} {bytes : Nat} (hlimit : 0 ≤ limit)
    (h : q.Sound limit) (hbytes : bytes < 2 ^ 64) (now : Instant) :
    Outcome limit q now bytes (q.reserve now bytes) := by
  rcases rate_cases h.share with ⟨hstuck, s, hrate⟩ | ⟨hpasses, rate, hrate, hpos, hfits⟩
  · rw [reserve_of_not_passes hstuck]
    exact .refused hrate
  rcases bytes.eq_zero_or_pos with rfl | hbytespos
  · rw [reserve_zero hpasses]
    exact .nothing hrate hpos rfl
  obtain ⟨overdrawn, amount, htokens, hholds⟩ := h.bucket
  obtain ⟨debt, hdebt, howed⟩ := hholds.exists_debt hlimit
  have hold : q.bucket.tokens.AtLeast (-debt) := by
    rw [htokens]
    exact howed
  obtain ⟨s, m, hrefill, hlow, hhigh⟩ := refill_finite hdebt hold hrate hpos hfits now
  obtain ⟨t, n, hsub, hn⟩ := sub_bytes hdebt hlow hhigh hbytes
  rw [← hrefill] at hsub
  exact outcome_of_holds hpasses hbytespos hrate hpos hsub hn

/-! ## Quotas in use -/

/-- A request for bytes. -/
inductive Request where
  /-- Up to that many, and one burst at most. -/
  | upTo (want : UInt64)
  /-- That many, as one. -/
  | whole (bytes : UInt64)

namespace Request

/-- What is asked of the bucket. -/
def bytes (q : Quota) : Request → Nat
  | upTo want => min want.toNat q.burst
  | whole bytes => bytes.toNat

def answer (q : Quota) (now : Instant) : Request → Grant × Quota
  | upTo want => q.throttle now want.toNat
  | whole bytes => q.throttleExact now bytes.toNat

/-- What the bucket is charged. -/
def charge (q : Quota) (now : Instant) (request : Request) : Nat :=
  if (request.answer q now).1 = .refused then 0 else request.bytes q

theorem answer_eq (q : Quota) (now : Instant) (request : Request) :
    request.answer q now = q.reserve now (request.bytes q) := by
  cases request <;> rfl

theorem bytes_lt (q : Quota) (request : Request) : request.bytes q < 2 ^ 64 := by
  cases request with
  | upTo want => exact (Nat.min_le_left _ _).trans_lt want.toNat_lt
  | whole bytes => exact bytes.toNat_lt

end Request

/-- A quota that was made, by a constructor or from another quota, and that calls have changed
since, and the number of bytes that its bucket was charged. -/
inductive InUse : Quota → Nat → Prop where
  | unlimited (now : Instant) (capacity : ByteSize) : InUse (unlimited now capacity) 0
  | new {now : Instant} {capacity : ByteSize} {fraction : Binary64} {q : Quota}
      (hproper : fraction.IsProper) (h : Quota.new now capacity fraction = .ok q) : InUse q 0
  | ofAllotted {now : Instant} {capacity allotted : ByteSize} {q : Quota}
      (h : ofAllotted now capacity allotted = .ok q) : InUse q 0
  | parse {now : Instant} {capacity : ByteSize} {text : String} {q : Quota}
      (h : parse now capacity text = .ok q) : InUse q 0
  | clone {q : Quota} {charged : Nat} (now : Instant) (hq : InUse q charged) :
      InUse (q.clone now) 0
  | answer {q : Quota} {charged : Nat} (now : Instant) (request : Request) (hq : InUse q charged) :
      InUse (request.answer q now).2 (charged + request.charge q now)
  | setFraction {q q' : Quota} {charged : Nat} {fraction : Binary64} (hq : InUse q charged)
      (hproper : fraction.IsProper) (h : q.setFraction fraction = .ok q') : InUse q' charged
  | setFractionText {q q' : Quota} {charged : Nat} {text : String} (hq : InUse q charged)
      (h : q.setFractionText text = .ok q') : InUse q' charged

/-! ## Every quota in use is sound -/

theorem IsShare.of_setFraction {q q' : Quota} {fraction : Binary64} (hproper : fraction.IsProper)
    (h : q.setFraction fraction = .ok q') : IsShare fraction ∧ q' = { q with fraction } := by
  obtain ⟨hrange, hq⟩ := setFraction_eq_ok.mp h
  exact ⟨⟨hproper, inRange_iff.mpr hrange⟩, hq⟩

theorem IsShare.of_new {now : Instant} {capacity : ByteSize} {fraction : Binary64} {q : Quota}
    (hproper : fraction.IsProper) (h : Quota.new now capacity fraction = .ok q) :
    IsShare fraction ∧ q = full now capacity fraction := by
  obtain ⟨hrange, hq⟩ := new_eq_ok.mp h
  exact ⟨⟨hproper, inRange_iff.mpr hrange⟩, hq⟩

theorem isShare_one : IsShare .one := ⟨(zero_le_one : (0 : Rat) ≤ 1), by decide +kernel⟩

/-- A text reads as a number of the format. -/
theorem isValue_readShare {text : List Char} {fraction : Binary64}
    (h : readShare text = some (.ok fraction)) : fraction.IsValue := by
  unfold readShare at h
  dsimp only at h
  split_ifs at h
  all_goals
    split at h
    · rename_i value hvalue
      injection h with h
      injection h with h
      exact h ▸ Binary.isValue_div (by decide) (Binary.isProper_read hvalue)
        (Binary.isProper_ofRat _)
    · exact absurd h (by simp)

theorem isValue_ratio (a b : ByteSize) : (a.ratio b).IsValue :=
  Binary.isValue_div (by decide) (Binary.isProper_ofRat _) (Binary.isProper_ofRat _)

/-- A source that, if it is a number, is one of the format. -/
def Source.IsValue : Source → Prop
  | number fraction => fraction.IsValue
  | _ => True

/-- Whatever a source gives is a number of the format. -/
theorem Gives.isValue {capacity : ByteSize} {source : Source} {fraction : Binary64}
    (hsource : source.IsValue) (h : Gives capacity source fraction) : fraction.IsValue := by
  cases h with
  | number => exact hsource
  | share h => exact isValue_readShare h
  | size => exact isValue_ratio _ _
  | allotted => exact isValue_ratio _ _

/-- Reading a fraction and setting it. -/
theorem setFractionText_ok {q q' : Quota} {text : String} (h : q.setFractionText text = .ok q') :
    ∃ fraction, fraction.IsProper ∧ q.setFraction fraction = .ok q' := by
  obtain ⟨fraction, hgives, hrange, hq⟩ := setFractionText_eq_ok.mp h
  have htext : (Source.text text).IsValue := trivial
  exact ⟨fraction, (hgives.isValue htext).isProper, setFraction_eq_ok.mpr ⟨hrange, hq⟩⟩

/-- A full bucket owes nothing. -/
theorem sound_full (now : Instant) (capacity : ByteSize) {fraction : Binary64}
    (h : IsShare fraction) : (full now capacity fraction).Sound 0 := by
  have hlow := capacity.lower
  have hhigh := capacity.upper
  obtain ⟨s, r, hrate, hr, hfits, -⟩ := mul_share (n := capacity.bytes) (by omega) (by omega) h
  obtain ⟨b, hb, hone, -⟩ := burstFor_finite (s := s) hr hfits
  refine ⟨h, false, b, ?_, zero_le_one.trans hone, by simp⟩
  show burstFor (capacity.toBinary.mul fraction) = _
  rw [← hb, ← hrate]
  rfl

theorem Sound.setFraction {limit : Rat} {q q' : Quota} {fraction : Binary64} (hq : q.Sound limit)
    (hproper : fraction.IsProper) (h : q.setFraction fraction = .ok q') : q'.Sound limit := by
  obtain ⟨hshare, rfl⟩ := IsShare.of_setFraction hproper h
  exact ⟨hshare, hq.bucket⟩

theorem Sound.answer {limit : Rat} {q : Quota} (hlimit : 0 ≤ limit) (h : q.Sound limit)
    (now : Instant) (request : Request) :
    (request.answer q now).2.Sound (limit + 4 * request.charge q now) := by
  have houtcome := reserve_outcome hlimit h (request.bytes_lt q) now
  unfold Request.charge
  rw [request.answer_eq]
  generalize q.reserve now (request.bytes q) = r at houtcome ⊢
  cases houtcome with
  | refused => simpa using h
  | nothing _ _ hbytes => simpa [hbytes] using h
  | granted _ _ _ hholds => exact ⟨h.share, _, _, rfl, hholds⟩
  | endless _ _ _ hdebt => exact ⟨h.share, true, _, rfl, hdebt.nonneg, fun _ => hdebt⟩

theorem sound_unlimited (now : Instant) (capacity : ByteSize) :
    (Quota.unlimited now capacity).Sound 0 := sound_full now capacity isShare_one

theorem InUse.sound {q : Quota} {charged : Nat} (h : InUse q charged) : q.Sound (4 * charged) := by
  induction h with
  | unlimited now capacity => simpa using sound_unlimited now capacity
  | new hproper h =>
      obtain ⟨hshare, rfl⟩ := IsShare.of_new hproper h
      simpa using sound_full _ _ hshare
  | ofAllotted h =>
      unfold Quota.ofAllotted at h
      split_ifs at h
      obtain ⟨hshare, rfl⟩ := IsShare.of_new (isValue_ratio _ _).isProper h
      simpa using sound_full _ _ hshare
  | parse h =>
      obtain ⟨fraction, hproper, hset⟩ := setFractionText_ok h
      simpa using (sound_unlimited _ _).setFraction hproper hset
  | @clone q charged now hq ih =>
      have hfull := sound_full now q.capacity ih.share
      rw [Nat.cast_zero, mul_zero]
      exact ⟨hfull.share, hfull.bucket⟩
  | answer now request hq ih =>
      have := ih.answer (by positivity) now request
      rw [Nat.cast_add, mul_add]
      exact this
  | setFraction hq hproper h ih => exact ih.setFraction hproper h
  | setFractionText hq h ih =>
      obtain ⟨fraction, hproper, hset⟩ := setFractionText_ok h
      exact ih.setFraction hproper hset

/-! ## What every call comes to -/

/-- **How long a quota makes anybody wait.** -/
theorem InUse.waits {q : Quota} {charged : Nat} (h : InUse q charged) (now : Instant)
    (request : Request) :
    (∃ s m, (request.answer q now).2.bucket.tokens = .finite s m)
      ∧ ((request.answer q now).1 = .refused ↔ ∃ s, q.rate = .finite s 0)
      ∧ (∀ n wait, (request.answer q now).1 = .granted n wait →
          n = request.bytes q ∧ wait < 2 ^ 64 * Duration.nanosPerSecond)
      ∧ ((request.answer q now).1 = .endless ↔ 0 < request.bytes q
          ∧ ∃ rate debt, q.rate = .finite false rate ∧ 0 < rate
            ∧ (request.answer q now).2.bucket.tokens = .finite true debt
            ∧ (2 ^ 64 - 2 ^ 10) * rate ≤ debt)
      ∧ ∀ rate, q.rate = .finite false rate → charged + request.bytes q ≤ 2 ^ 61 * rate →
          (request.answer q now).1 ≠ .endless := by
  have hlimit : (0 : Rat) ≤ 4 * charged := by positivity
  have houtcome := reserve_outcome hlimit h.sound (request.bytes_lt q) now
  obtain ⟨-, s, m, htokens, -⟩ := h.sound.answer hlimit now request
  rw [← request.answer_eq] at houtcome
  refine ⟨⟨s, m, htokens⟩, houtcome.refused_iff, fun _ _ => houtcome.wait_lt,
    houtcome.endless_iff, fun rate hrate hcovered => houtcome.ne_endless hrate ?_⟩
  linarith

/-- A quota whose rate is far below one byte in the age of the universe. -/
def standstill : Quota := .full 0 (.clamp 1) (.ofBits 0x01a56e1fc2f8f359)

/-- The same quota, after the one byte that its burst lets pass. -/
def spent : Quota := ((Request.upTo 1).answer standstill 0).2

theorem inUse_spent : InUse spent 1 := by
  have hcharge : 0 + (Request.upTo 1).charge standstill 0 = 1 := by decide +kernel
  have hmade : Quota.new 0 (.clamp 1) (.ofBits 0x01a56e1fc2f8f359) = .ok standstill := by
    decide +kernel
  exact hcharge ▸ InUse.answer 0 (.upTo 1) (.new (Binary.isProper_ofBits _) hmade)

theorem InUse.waits_spent : InUse spent 1 ∧ ((Request.upTo 1).answer spent 0).1 = .endless
    ∧ ∃ rate debt, spent.rate = .finite false rate ∧ 0 < rate
      ∧ ((Request.upTo 1).answer spent 0).2.bucket.tokens = .finite true debt
      ∧ (2 ^ 64 - 2 ^ 10) * rate ≤ debt := by
  have hendless : ((Request.upTo 1).answer spent 0).1 = .endless := by decide +kernel
  obtain ⟨-, -, -, hiff, -⟩ := InUse.waits inUse_spent 0 (.upTo 1)
  exact ⟨inUse_spent, hendless, (hiff.mp hendless).2⟩

/-- **A wait may be beyond all durations.** The quota is one that can be made, and the second byte
that is asked of it never passes. -/
theorem throttle_endless :
    ∃ q, Quota.new 0 (.clamp 1) (.ofBits 0x01a56e1fc2f8f359) = .ok q
      ∧ (q.throttle 0 1).1 = .granted 1 0 ∧ ((q.throttle 0 1).2.throttle 0 1).1 = .endless :=
  ⟨standstill, by decide +kernel, by decide +kernel, by decide +kernel⟩

end Quota

end PacedNet
