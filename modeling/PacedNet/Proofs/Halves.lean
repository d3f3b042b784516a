import PacedNet.Proofs.Admission
import PacedNet.Proofs.Size.Writing

/-!
# Half a capacity, said in four ways

Half of an even capacity may be given as a percentage, as a number, as the size that is allotted and
as that size's text. The first three make one quota, whose share is half of the capacity to the
byte. The fourth does, too, if the text is read as the size that it was written of, and only then:
the quotient of any other size rounds to another fraction (`nearest_quotient_eq_half`). A size is
written with two places, so that of 2468 bytes the half is written `1.21 KiB`, and is read as 1239
bytes and not as 1234 (`halves_differ`).
-/

namespace PacedNet

open BinaryFormat

/-! ## Sizes as numbers -/

namespace ByteSize

variable {r s : ByteSize}

theorem toBinary_eq (hlow : 0 ≤ s.bytes) (hhigh : s.bytes ≤ 2 ^ 53) :
    s.toBinary = .finite false s.bytes := by
  have hcast : (s.bytes : Rat) = s.bytes.toNat := by
    rw [← Int.cast_natCast, Int.toNat_of_nonneg hlow]
  unfold toBinary
  rw [(Binary.ofInt_of_le (e := 53) (by norm_num) (by omega) hhigh).1,
    decide_eq_false (not_lt.mpr hlow), hcast, Rat.abs_of_nonneg (Nat.cast_nonneg _),
    nearest_natCast (by omega)]

/-- The share that a size is of a capacity. -/
theorem ratio_eq (hlow : 0 ≤ r.bytes) (hle : r.bytes ≤ s.bytes) (hpos : 0 < s.bytes)
    (hhigh : s.bytes ≤ 2 ^ 53) :
    r.ratio s = .finite false (double.nearest (r.bytes / s.bytes))
      ∧ 0 ≤ double.nearest (r.bytes / s.bytes) ∧ double.nearest (r.bytes / s.bytes) ≤ 1 := by
  have hlow' : (0 : Rat) ≤ r.bytes := by exact_mod_cast hlow
  have hle' : (r.bytes : Rat) ≤ s.bytes := by exact_mod_cast hle
  have hpos' : (0 : Rat) < s.bytes := by exact_mod_cast hpos
  have hquotient : (0 : Rat) ≤ r.bytes / s.bytes := div_nonneg hlow' hpos'.le
  have hround := Binary.ofExact_of_le (s := false) (e := 0) (by norm_num) hquotient
    (by rw [pow_zero]; exact (div_le_one hpos').mpr hle')
  refine ⟨?_, nearest_nonneg _ hquotient, by simpa using hround.2⟩
  unfold ratio
  rw [toBinary_eq hlow (hle.trans hhigh), toBinary_eq hpos.le hhigh]
  show (if (s.bytes : Rat) = 0 then _ else Binary.ofExact _ _ : Binary64) = _
  rw [if_neg hpos'.ne']
  exact hround.1

end ByteSize

/-- Only half of an even number rounds to a half of it: any other quotient is two to the minus
fifty-third away at least, and so far there are values of the format on either side. -/
theorem nearest_quotient_eq_half {r h : Int} (hr : 0 ≤ r) (hpos : 0 < h) (hle : 2 * h ≤ 2 ^ 53) :
    double.nearest (r / (2 * h : Int)) = 1 / 2 ↔ r = h := by
  have hhalf : double.nearest (1 / 2) = 1 / 2 := by decide +kernel
  have hpos' : (0 : Rat) < h := by exact_mod_cast hpos
  have hle' : (2 * h : Rat) ≤ 2 ^ 53 := by exact_mod_cast hle
  push_cast
  constructor
  · intro hround
    have hstep : (1 : Rat) / 2 ^ 53 * (2 * h) ≤ 1 := by
      rw [div_mul_eq_mul_div, one_mul]
      exact (div_le_one (by positivity)).mpr hle'
    by_contra hne
    rcases lt_or_gt_of_ne hne with hless | hmore
    · have hquotient : (r : Rat) / (2 * h) ≤ 1 / 2 - 1 / 2 ^ 53 := by
        have : (r : Rat) ≤ h - 1 := by exact_mod_cast (by omega : r ≤ h - 1)
        rw [div_le_iff₀ (by linarith), sub_mul]
        linarith
      have hbelow := nearest_mono (F := .double) (by decide) (div_nonneg (by exact_mod_cast hr)
        (by linarith)) hquotient
      have hvalue : double.nearest (1 / 2 - 1 / 2 ^ 53) = 1 / 2 - 1 / 2 ^ 53 := by decide +kernel
      rw [hround, hvalue] at hbelow
      norm_num at hbelow
    · have hquotient : 1 / 2 + 1 / 2 ^ 53 ≤ (r : Rat) / (2 * h) := by
        have : (h : Rat) + 1 ≤ r := by exact_mod_cast (by omega : h + 1 ≤ r)
        rw [le_div_iff₀ (by linarith), add_mul]
        linarith
      have habove := nearest_mono (F := .double) (by decide) (by norm_num) hquotient
      have hvalue : double.nearest (1 / 2 + 1 / 2 ^ 53) = 1 / 2 + 1 / 2 ^ 53 := by decide +kernel
      rw [hround, hvalue] at habove
      norm_num at habove
  · rintro rfl
    have hquotient : (r : Rat) / (2 * r) = 1 / 2 := by
      field_simp
    rw [hquotient, hhalf]

namespace Quota

/-! ## A size is no decimal -/

/-- Behind the number of a size there is a unit, and no decimal or percentage ends in one. -/
theorem readShare_of_spells {x : Quantity} {s : List Char} (h : x.Spells s) :
    readShare s = none := by
  obtain ⟨front, core, back, hfront, hback, hcore, rfl⟩ := h
  have hlast : core.getLast? ≠ some '%' := by
    obtain ⟨c, hc, halpha⟩ := hcore.last
    rw [hc]
    rintro ⟨⟩
    exact absurd halpha (by decide)
  unfold readShare
  dsimp only
  rw [Text.trim_append hfront hcore.trimmed hback, if_neg hlast]
  dsimp only
  obtain ⟨sign, body, hsign, hbody, rfl⟩ := hcore
  refine if_pos ?_
  generalize x.negative = negative at hsign
  cases hsign with
  | minus hgap => rfl
  | none =>
      -- behind the digits the unit is left over, with or without a point in front
      obtain ⟨number, gap, unit, hspells, hgap, hunit, rfl⟩ := hbody.parts
      obtain ⟨first, -, hfirst, halpha, -, -⟩ := hunit.ends
      have hends := ByteSize.endsNumber_append hgap hfirst halpha
      have hmem : first ∈ gap ++ unit := List.mem_append_right _ (List.mem_of_head? hfirst)
      have hdigits := hbody.digits
      rw [List.nil_append]
      generalize x.whole = whole at hspells hdigits
      generalize x.fraction = fraction at hspells
      cases hspells with
      | whole =>
          rw [(Text.takeWhile_run hdigits fun c hc => (hends c hc).1).2]
          split
          next hnil => exact absurd (hnil ▸ hmem) (List.not_mem_nil)
          next r hr => exact absurd rfl (hends '.' (by rw [hr]; rfl)).2
          next => rw [Bool.not_false, Bool.or_true]
      | pointed =>
          rw [List.append_assoc, List.cons_append,
            (Text.takeWhile_run hdigits (ByteSize.point_stops _)).2]
          have hall : (fraction ++ (gap ++ unit)).all isDigit = false :=
            List.all_eq_false.mpr ⟨first, List.mem_append_right _ hmem,
              by rw [(isBlank_of_isAlpha halpha).2]; decide⟩
          show (_ || !(fraction ++ (gap ++ unit)).all isDigit) = true
          rw [hall, Bool.not_false, Bool.or_true]

/-! ## Halves -/

/-- A quota of half of a capacity. -/
structure IsHalf (capacity : ByteSize) (q : Quota) : Prop where
  capacity : q.capacity = capacity
  fraction : q.fraction = .finite false (1 / 2)
  rounding : q.rounding = .nearest

/-- An even capacity that is a value of the format, and the half of it. -/
structure Halved (capacity half : ByteSize) : Prop where
  pos : 0 < half.bytes
  double : capacity.bytes = 2 * half.bytes
  fits : capacity.bytes ≤ 2 ^ 53

variable {capacity half r : ByteSize} {p q : Quota}

theorem isFraction_half : IsFraction (.finite false (1 / 2)) :=
  ⟨1 / 2, rfl, by norm_num, by norm_num⟩

theorem IsHalf.same (hp : IsHalf capacity p) (hq : IsHalf capacity q) : p.same q = true := by
  unfold Quota.same
  rw [hp.capacity, hq.capacity, hp.fraction, hq.fraction, beq_self_eq_true]
  decide +kernel

theorem IsHalf.allotted (hp : IsHalf capacity p) (h : Halved capacity half) :
    p.allotted = half := by
  obtain ⟨hpos, hdouble, hfits⟩ := h
  have hhalf : (half.bytes : Rat) = half.bytes.toNat := by
    rw [← Int.cast_natCast, Int.toNat_of_nonneg hpos.le]
  have hproduct : p.capacity.toBinary.mul p.fraction = .finite false half.bytes := by
    have hvalue : (capacity.bytes : Rat) * (1 / 2) = half.bytes.toNat := by
      rw [← hhalf, hdouble]
      push_cast
      ring
    rw [hp.capacity, hp.fraction, ByteSize.toBinary_eq (by omega) hfits]
    show Binary.ofExact _ _ = _
    rw [hvalue, (Binary.ofExact_of_le (e := 53) (by norm_num) (Nat.cast_nonneg _)
      (by exact_mod_cast (by omega : half.bytes.toNat ≤ 2 ^ 53))).1,
      nearest_natCast (by omega), ← hhalf]
    rfl
  have hlow := half.lower
  have hhigh := half.upper
  refine ByteSize.eq_of_bytes ?_
  unfold Quota.allotted
  dsimp only
  rw [hproduct, hp.rounding, ByteSize.clamp_bytes, ByteSize.least_bytes, ByteSize.greatest_bytes]
  show max _ (min _ (max _ (min _ (roundHalfAway half.bytes)))) = _
  rw [roundHalfAway_intCast hpos.le]
  omega

/-- A source that gives a half makes a quota of half of the capacity. -/
theorem exists_isHalf {source : Source} (now : Instant)
    (h : Gives capacity source (.finite false (1 / 2))) :
    ∃ q, make now capacity source = .ok q ∧ IsHalf capacity q := by
  obtain ⟨bucket, hmake⟩ := exists_make now h isFraction_half
  exact ⟨_, hmake, rfl, rfl, rfl⟩

/-- Half of an even capacity is the half of it. -/
theorem Halved.ratio (h : Halved capacity half) :
    half.ratio capacity = .finite false (1 / 2) := by
  obtain ⟨hpos, hdouble, hfits⟩ := h
  obtain ⟨hratio, -, -⟩ := ByteSize.ratio_eq hpos.le (by omega) (by omega) hfits
  rw [hratio, hdouble, (nearest_quotient_eq_half hpos.le hpos (by omega)).mpr rfl]

/-- A quota of a size that is no greater than the capacity is one of a half exactly if the size is
the half. -/
theorem IsHalf.same_ratio (hp : IsHalf capacity p) (h : Halved capacity half) (hr : 0 ≤ r.bytes)
    (hrc : r.bytes ≤ capacity.bytes) (hq : q.capacity = capacity)
    (hfraction : q.fraction = r.ratio capacity) :
    (p.same q = true ↔ r = half) ∧ (q.same p = true ↔ r = half) := by
  obtain ⟨hpos, hdouble, hfits⟩ := h
  obtain ⟨hratio, -, -⟩ := ByteSize.ratio_eq hr hrc (by omega) hfits
  have hround : double.nearest (r.bytes / capacity.bytes) = 1 / 2 ↔ r = half := by
    rw [hdouble, nearest_quotient_eq_half hr hpos (by omega)]
    exact ⟨ByteSize.eq_of_bytes, congrArg _⟩
  unfold Quota.same
  rw [hp.capacity, hq, hp.fraction, hfraction, hratio, beq_self_eq_true, Bool.true_and,
    Bool.true_and, Binary.numEq_finite, Binary.numEq_finite, ← hround]
  exact ⟨eq_comm, Iff.rfl⟩

/-- **Half of an even capacity, said in four ways.** Of a percentage, a number and the size allotted
one quota is made, which allots the half to the byte. Of the text of the half one is made, too, and
it is the same exactly if the text is read as the half, which it is if two places are enough. -/
theorem halves (hpos : 0 < capacity.bytes) (hcapacity : capacity.bytes = 2 * half.bytes)
    (hle : capacity.bytes ≤ 2 ^ 53) (t₁ t₂ t₃ t₄ : Instant) :
    ∃ q₁ q₂ q₃ q₄, parse t₁ capacity "50%" = .ok q₁
      ∧ new t₂ capacity (.finite false (1 / 2)) = .ok q₂
      ∧ ofAllotted t₃ capacity half = .ok q₃
      ∧ parse t₄ capacity half.display = .ok q₄
      ∧ (∀ p ∈ [q₁, q₂, q₃], p.allotted = half ∧ ∀ q ∈ [q₁, q₂, q₃], p.same q = true)
      ∧ (∀ p ∈ [q₁, q₂, q₃], (p.same q₄ = true ↔ ByteSize.parse half.display = .ok half)
        ∧ (q₄.same p = true ↔ ByteSize.parse half.display = .ok half))
      ∧ (ByteSize.parse half.display = .ok half → q₄.allotted = half)
      ∧ (2 ^ (10 * half.displayedExponent) ∣ 100 * half.bytes.natAbs →
        ByteSize.parse half.display = .ok half) := by
  have hhalved : Halved capacity half := ⟨by omega, hcapacity, hle⟩
  have hratio := hhalved.ratio
  have hsize : Gives capacity (.allotted half) (.finite false (1 / 2)) := hratio ▸ .allotted hpos
  have hpercent : readShare "50%".toList = some (.ok (.finite false (1 / 2))) := by decide +kernel
  obtain ⟨q₁, hmake₁, h₁⟩ := exists_isHalf t₁ (.share hpercent)
  obtain ⟨q₂, hmake₂, h₂⟩ := exists_isHalf t₂ (.number (.finite false (1 / 2)))
  obtain ⟨q₃, hmake₃, h₃⟩ := exists_isHalf t₃ hsize
  -- the text is read as some size, no greater than the capacity
  obtain ⟨r, hread, hr, hdouble⟩ := ByteSize.parse_display_le hhalved.pos (by omega)
  have hrc : r.bytes ≤ capacity.bytes := by omega
  obtain ⟨x, hspells, -⟩ := ByteSize.parse_eq_ok.mp hread
  obtain ⟨hquotient, hlow, hhigh⟩ := ByteSize.ratio_eq hr hrc hpos hle
  have hrange : IsFraction (r.ratio capacity) := ⟨_, congrArg _ hquotient, hlow, hhigh⟩
  obtain ⟨bucket, hmake₄⟩ :=
    exists_make t₄ (.size (readShare_of_spells hspells) hread hpos) hrange
  have hsame : r = half ↔ ByteSize.parse half.display = .ok half := by
    rw [hread]
    exact ⟨congrArg _, Except.ok.inj⟩
  have hall : ∀ p ∈ [q₁, q₂, q₃], IsHalf capacity p := by
    simp only [List.mem_cons, List.not_mem_nil, or_false]
    rintro p (rfl | rfl | rfl)
    · exact h₁
    · exact h₂
    · exact h₃
  refine ⟨q₁, q₂, q₃, _, hmake₁, hmake₂, hmake₃, hmake₄, ?_, ?_, ?_,
    ByteSize.parse_display (by omega)⟩
  · intro p hp
    exact ⟨(hall p hp).allotted hhalved, fun q hq => (hall p hp).same (hall q hq)⟩
  · intro p hp
    rw [← hsame]
    exact (hall p hp).same_ratio hhalved hr hrc rfl rfl
  · intro hback
    rw [← hsame] at hback
    have hfourth : IsHalf capacity
        { capacity, fraction := r.ratio capacity, rounding := .nearest, bucket } :=
      ⟨rfl, by rw [hback]; exact hratio, rfl⟩
    exact hfourth.allotted hhalved

/-- Three kibibytes: the half is written with the places that it has. -/
theorem halves_kibibytes : (ByteSize.clamp 1536).display = "1.50 KiB"
    ∧ ∃ q₁ q₂ q₃ q₄, parse 0 (.clamp 3072) "50%" = .ok q₁
      ∧ new 1 (.clamp 3072) (.finite false (1 / 2)) = .ok q₂
      ∧ ofAllotted 2 (.clamp 3072) (.clamp 1536) = .ok q₃
      ∧ parse 3 (.clamp 3072) "1.50 KiB" = .ok q₄
      ∧ (∀ p ∈ [q₁, q₂, q₃], p.same q₄ = true) ∧ q₄.allotted = .clamp 1536 := by
  have hdisplay : (ByteSize.clamp 1536).display = "1.50 KiB" := by decide +kernel
  have hplaces : 2 ^ (10 * (ByteSize.clamp 1536).displayedExponent)
      ∣ 100 * (ByteSize.clamp 1536).bytes.natAbs := by decide +kernel
  obtain ⟨q₁, q₂, q₃, q₄, h₁, h₂, h₃, h₄, -, hsame, hallotted, hback⟩ :=
    @halves (.clamp 3072) (.clamp 1536) (by decide) rfl (by decide) 0 1 2 3
  rw [hdisplay] at h₄
  exact ⟨hdisplay, q₁, q₂, q₃, q₄, h₁, h₂, h₃, h₄,
    fun p hp => (hsame p hp).1.mpr (hback hplaces), hallotted (hback hplaces)⟩

/-- Two places are not enough for the half of 2468 bytes. -/
theorem halves_differ : (ByteSize.clamp 2468).bytes = 2 * (ByteSize.clamp 1234).bytes
    ∧ ∃ q q', new 0 (.clamp 2468) (.finite false (1 / 2)) = .ok q
    ∧ parse 0 (.clamp 2468) (ByteSize.clamp 1234).display = .ok q' ∧ q.same q' = false
    ∧ q.allotted = .clamp 1234 ∧ q'.allotted = .clamp 1239 := by
  refine ⟨rfl, full 0 (.clamp 2468) (.finite false (1 / 2)),
    { unlimited 0 (.clamp 2468) with fraction := .ofBits 0x3fe01098afec1593 }, ?_⟩
  decide +kernel

end Quota

end PacedNet
