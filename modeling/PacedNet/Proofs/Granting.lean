import PacedNet.Proofs.Steering

/-!
# What a quota answers

Three things decide what a quota answers, and each decides one part of it. The capacity and the
fraction decide whether it refuses: their product is rounded, and yet it is zero only if one of them
is (`CanHold.passes_iff`), because rounding keeps the order and the fraction is a number of the
format. The request and the rate decide how much is granted, and that is never nothing of something.
The bucket decides how long the wait is and nothing else, whatever it owes (`CanHold.grants`).

Every fraction that gets into a quota is a number of the format (`InService.canHold`).
-/

namespace PacedNet.Quota

/-- A fraction that a quota may have: a number of the format, from zero to one. -/
structure CanHold (x : Binary64) : Prop where
  value : x.IsValue
  fraction : IsFraction x

theorem CanHold.isShare {x : Binary64} (h : CanHold x) : IsShare x :=
  ⟨h.value.isProper, inRange_iff.mpr h.fraction⟩

/-- The bucket is in debt, and to pay it off takes longer than any duration. -/
def Overdue (q : Quota) : Prop :=
  Binary.zero.numLt q.bucket.tokens.neg = true
    ∧ Duration.ofSeconds? (q.bucket.tokens.neg.div q.rate) = none

/-- What asking a quota for bytes comes to: it refuses if it has nothing to give at all, it gives
all that it is asked for, or the debt that this leaves takes longer than any duration. -/
structure Answers (q : Quota) (bytes : Nat) (r : Grant × Quota) : Prop where
  refused : r.1 = .refused ↔ q.capacity.bytes ≤ 0 ∨ q.fraction.toRat? = some 0
  endless : r.1 = .endless ↔ r.1 ≠ .refused ∧ 0 < bytes ∧ r.2.Overdue
  granted : r.1 ≠ .refused → r.1 ≠ .endless → ∃ wait, r.1 = .granted bytes wait

/-- What a quota grants, however much is asked for and whenever. -/
structure Grants (q : Quota) : Prop where
  one_le_burst : 1 ≤ q.burst
  throttle : ∀ now want, Answers q (min want q.burst) (q.throttle now want)
  throttleExact : ∀ now bytes, Answers q bytes (q.throttleExact now bytes)
  something : ∀ now want n wait, (q.throttle now want).1 = .granted n wait → 1 ≤ want → 1 ≤ n

/-! ## When a quota refuses -/

variable {q : Quota}

/-- A product of a whole number and a number of the format is zero only if one of them is. -/
theorem nearest_mul_pos {n : Nat} {m : Rat} (hm : 0 ≤ m)
    (hvalue : BinaryFormat.double.nearest m = m) :
    0 < BinaryFormat.double.nearest (BinaryFormat.double.nearest n * m) ↔ 0 < n ∧ 0 < m := by
  rcases n.eq_zero_or_pos with rfl | hn
  · simp
  rcases hm.eq_or_lt with rfl | hpos
  · simp
  have hone : (1 : Nat) ≤ BinaryFormat.double.nearest n :=
    BinaryFormat.natCast_le_nearest (by norm_num) (Nat.cast_le.mpr hn)
  rw [Nat.cast_one] at hone
  -- the product is no less than the fraction, which is a number of the format
  have hround := BinaryFormat.nearest_mono (F := .double) (by decide) hm
    (le_mul_of_one_le_left hm hone)
  rw [hvalue] at hround
  exact iff_of_true (hpos.trans_le hround) ⟨hn, hpos⟩

/-- The rate is the product of a capacity that is not negative and a number of the format. -/
theorem CanHold.rate_eq (h : CanHold q.fraction) :
    ∃ s m, q.fraction = .finite s m ∧ 0 ≤ m ∧ (s = true → m = 0)
      ∧ BinaryFormat.double.nearest m = m
      ∧ q.rate = .finite s (BinaryFormat.double.nearest
          (BinaryFormat.double.nearest q.capacity.bytes.toNat * m)) := by
  obtain ⟨s, m, hfraction, hm, hone, hsign⟩ := h.isShare.eq_finite
  have hvalue : BinaryFormat.double.nearest m = m := by
    have hheld := h.value
    rw [hfraction] at hheld
    exact hheld.2
  -- a capacity below zero counts as none, and no capacity is too great for the format
  have hmax : max q.capacity.bytes 0 = (q.capacity.bytes.toNat : Int) := by omega
  have hupper := q.capacity.upper
  obtain ⟨hint, hfits⟩ := Binary.ofInt_of_le (n := (q.capacity.bytes.toNat : Int)) (e := 63)
    (by norm_num) (by omega) (by omega)
  have hcast : (0 : Rat) ≤ q.capacity.bytes.toNat := Nat.cast_nonneg _
  rw [decide_eq_false (by omega), Int.cast_natCast, Rat.abs_of_nonneg hcast] at hint
  rw [Int.cast_natCast, Rat.abs_of_nonneg hcast] at hfits
  have hc := BinaryFormat.double.nearest_nonneg hcast
  obtain ⟨hproduct, -⟩ := Binary.ofExact_of_le (s := s) (e := 63) (by norm_num) (mul_nonneg hc hm)
    ((mul_le_of_le_one_right hc hone).trans hfits)
  refine ⟨s, m, hfraction, hm, hsign, hvalue, ?_⟩
  rw [← hproduct, rate, hmax, hint, hfraction]
  show Binary.ofExact (false != s) _ = _
  rw [Bool.false_bne]

/-- **A quota has nothing to give exactly if its capacity or its fraction is nothing.** -/
theorem CanHold.passes_iff (h : CanHold q.fraction) :
    q.Passes ↔ 0 < q.capacity.bytes ∧ q.fraction.toRat? ≠ some 0 := by
  obtain ⟨s, m, hfraction, hm, hsign, hvalue, hrate⟩ := h.rate_eq
  have hzero : q.fraction.toRat? = some 0 ↔ m = 0 := by
    rw [hfraction]
    cases s with
    | false => exact Option.some_inj
    | true => simp [Binary.toRat?, Binary.signed, hsign]
  rw [Quota.passes_iff hrate fun hs => by simp [hsign hs], nearest_mul_pos hm hvalue, ne_eq, hzero]
  refine and_congr (by omega) ?_
  exact hm.lt_iff_ne'

/-! ## What a quota grants -/

/-- If anything may pass, all that is asked for is granted, unless the debt takes too long. -/
theorem reserve_of_passes (hpasses : q.Passes) (now : Instant) (bytes : Nat) :
    (∃ wait bucket, q.reserve now bytes = (.granted bytes wait, { q with bucket })
        ∧ (0 < bytes → ¬ Overdue { q with bucket }))
      ∨ 0 < bytes ∧ ∃ bucket, q.reserve now bytes = (.endless, { q with bucket })
        ∧ Overdue { q with bucket } := by
  rcases bytes.eq_zero_or_pos with rfl | hpos
  · exact .inl ⟨0, q.bucket, reserve_zero hpasses, fun hno => absurd hno (lt_irrefl 0)⟩
  unfold reserve
  rw [if_neg (ne_true_of_eq_false hpasses), if_neg hpos.ne']
  dsimp only
  by_cases hdebt : Binary.zero.numLt ((q.refill now).sub (.ofInt bytes)).neg = true
  · rw [if_pos hdebt]
    cases hwait : Duration.ofSeconds? (((q.refill now).sub (.ofInt bytes)).neg.div q.rate) with
    | some wait =>
        exact .inl ⟨wait, _, rfl, fun _ hlong => absurd (hwait.symm.trans hlong.2) (by simp)⟩
    | none => exact .inr ⟨hpos, _, rfl, hdebt, hwait⟩
  · rw [if_neg hdebt]
    exact .inl ⟨0, _, rfl, fun _ hlong => hdebt hlong.1⟩

/-- Whatever its bucket holds, a quota answers as its capacity and fraction say. -/
theorem CanHold.answers (h : CanHold q.fraction) (now : Instant) (bytes : Nat) :
    Answers q bytes (q.reserve now bytes) := by
  have hrefused : (q.reserve now bytes).1 = .refused
      ↔ q.capacity.bytes ≤ 0 ∨ q.fraction.toRat? = some 0 := by
    rw [reserve_refused, h.passes_iff, not_and_or, not_lt, not_not]
  by_cases hpasses : q.Passes
  · rcases reserve_of_passes hpasses now bytes with
      ⟨wait, bucket, hgrant, hshort⟩ | ⟨hpos, bucket, hgrant, hlong⟩
    · rw [hgrant] at hrefused ⊢
      exact ⟨hrefused, iff_of_false (by simp) fun ⟨_, hpos, hlong⟩ => hshort hpos hlong,
        fun _ _ => ⟨wait, rfl⟩⟩
    · rw [hgrant] at hrefused ⊢
      exact ⟨hrefused, iff_of_true rfl ⟨by simp, hpos, hlong⟩, fun _ hends => absurd rfl hends⟩
  · rw [reserve_of_not_passes hpasses] at hrefused ⊢
    exact ⟨hrefused, iff_of_false (by simp) fun hno => hno.1 rfl, fun hpass => absurd rfl hpass⟩

/-- **What a quota grants is a matter of the request and the burst**, whatever its bucket holds. -/
theorem CanHold.grants (h : CanHold q.fraction) : q.Grants := by
  have hproper : q.rate.IsProper := isProper_rate h.value.isProper
  have hburst : 1 ≤ q.burst := one_le_burst hproper
  refine ⟨hburst, fun now want => h.answers now _, h.answers, fun now want n wait hn hwant => ?_⟩
  rw [(q.reserve_spec now _).2 n wait hn]
  omega

/-! ## Quotas that are in service -/

/-- A quota that was made, or copied from another one, and that calls have been made on since. All
numbers that it was told are numbers of the format. -/
inductive InService : Quota → Prop where
  | unlimited (now : Instant) (capacity : ByteSize) : InService (Quota.unlimited now capacity)
  | made {now : Instant} {capacity : ByteSize} {source : Source} {q : Quota}
      (hsource : source.IsValue) (hq : make now capacity source = .ok q) : InService q
  | copied {q : Quota} (h : InService q) (now : Instant) : InService (q.clone now)
  | called {now : Instant} {call : Call} {q q' : Quota} {r : Except QuotaError (Option Grant)}
      (h : InService q) (hsource : ∀ source, call.source? = some source → source.IsValue)
      (hcall : (call.perform now).run q = (r, q')) : InService q'

theorem InService.canHold (h : q.InService) : CanHold q.fraction := by
  induction h with
  | unlimited now capacity =>
      exact ⟨⟨zero_le_one, by decide +kernel⟩, inRange_iff.mp isShare_one.inRange⟩
  | made hsource hq =>
      obtain ⟨hgives, hfraction⟩ := make_eq_ok hq
      exact ⟨hgives.isValue hsource, hfraction⟩
  | copied h now ih => exact ih
  | called h hsource hcall ih =>
      rcases perform_fraction hcall with hsame | ⟨source, hgiven, hgives, hfraction⟩
      · exact hsame ▸ ih
      · exact ⟨hgives.isValue (hsource source hgiven), hfraction⟩

end PacedNet.Quota
