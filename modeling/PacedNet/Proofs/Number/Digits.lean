import PacedNet.Number.Reading
import PacedNet.Text.Blank

/-!
# The digits of a number

A number is written in a base with the digits of that base, as many as it needs, and the digits are
worth the number. Both hold in any base that has digits, so that decimal and hexadecimal numbers are
read by one argument: whatever gives each digit its worth gives the number (`foldl_toDigits`).
-/

namespace PacedNet

variable {b n : Nat} {c : Char}

theorem mem_toDigits (hb : 1 < b) (h : c ∈ Nat.toDigits b n) :
    ∃ d, d < b ∧ c = Nat.digitChar d := by
  -- the last digit is what is left over, and the others are those of a smaller number
  induction n using Nat.strongRecOn with
  | ind n ih =>
      rw [Nat.toDigits_eq_if hb] at h
      by_cases hn : n < b
      · rw [if_pos hn, List.mem_singleton] at h
        exact ⟨n, hn, h⟩
      · rw [if_neg hn] at h
        rcases List.mem_append.mp h with h | h
        · exact ih (n / b) (Nat.div_lt_self (by omega) hb) h
        · exact ⟨n % b, Nat.mod_lt n (by omega), List.mem_singleton.mp h⟩

/-- What adds a digit's worth to the digits before it adds up to the number. -/
theorem foldl_toDigits {f : Nat → Char → Nat} (hb : 1 < b)
    (hf : ∀ m d, d < b → f m (Nat.digitChar d) = b * m + d) : (Nat.toDigits b n).foldl f 0 = n := by
  induction n using Nat.strongRecOn with
  | ind n ih =>
      rw [Nat.toDigits_eq_if hb]
      by_cases hn : n < b
      · rw [if_pos hn, List.foldl_cons, List.foldl_nil, hf 0 n hn, Nat.mul_zero, Nat.zero_add]
      · rw [if_neg hn, List.foldl_append, ih (n / b) (Nat.div_lt_self (by omega) hb),
          List.foldl_cons, List.foldl_nil, hf _ _ (Nat.mod_lt n (by omega)), Nat.div_add_mod]

/-- No number but zero starts with a zero. -/
theorem head?_toDigits_ten (hn : n ≠ 0) : (Nat.toDigits 10 n).head? ≠ some '0' := by
  induction n using Nat.strongRecOn with
  | ind n ih =>
      rw [Nat.toDigits_eq_if (by decide)]
      by_cases hlt : n < 10
      · rw [if_pos hlt, List.head?_cons]
        have hdigit : ∀ d < 10, d ≠ 0 → some (Nat.digitChar d) ≠ some '0' := by decide
        exact hdigit n hlt hn
      · have hrest := ih (n / 10) (by omega) (by omega)
        obtain ⟨c, more, hc⟩ :=
          List.exists_cons_of_ne_nil (Nat.toDigits_ne_nil (n := n / 10) (b := 10))
        rw [hc] at hrest
        rw [if_neg hlt, hc]
        exact hrest

/-! ## Decimal digits -/

theorem isBlank_of_isDigit (h : isDigit c = true) : Text.isBlank c = false := by
  have hc : 48 ≤ c.toNat ∧ c.toNat ≤ 57 := by
    unfold isDigit at h
    simpa [Char.le_def, UInt32.le_iff_toNat_le] using h
  unfold Text.isBlank Text.inRanges Text.blankRanges
  simp
  omega

theorem isDigit_of_mem_toDigits (h : c ∈ Nat.toDigits 10 n) : isDigit c = true := by
  obtain ⟨d, hd, rfl⟩ := mem_toDigits (by decide) h
  have hdigit : ∀ d < 10, isDigit (Nat.digitChar d) = true := by decide
  exact hdigit d hd

theorem digitsValue_toDigits (n : Nat) : digitsValue (Nat.toDigits 10 n) = n := by
  refine foldl_toDigits (by decide) fun m d hd => ?_
  have hdigit : ∀ d < 10, (Nat.digitChar d).toNat - '0'.toNat = d := by decide
  rw [hdigit d hd]

theorem toList_toString (n : Nat) : (toString n).toList = Nat.toDigits 10 n := by
  rw [Nat.toString_eq_repr, Nat.toList_repr]

end PacedNet
