import PacedNet.Text.Utf8

/-!
# Encoded text is read back

The octets of a character are a lead octet and its followers. Each lead octet fixes the ranges that
its followers lie in, and the ranges are as wide as the characters need: one that is encoded is read
as itself, with nothing taken of what comes after it (`decodeStep_encode`). Hence the encoding of a
text is read as that text (`decodeLossy_encode`).
-/

namespace PacedNet.Text

/-! ## One octet after the other -/

/-- The octet of a number that fits. -/
theorem toNat_ofNat_of_lt {n : Nat} (h : n < 256) : (UInt8.ofNat n).toNat = n := by
  rw [UInt8.toNat_ofNat', Nat.mod_eq_of_lt h]

/-- A follower in its range adds six bits. -/
theorem followers_cons {n low high : Nat} (bits : Nat) (ranges : List (Nat × Nat))
    (rest : List UInt8) (hn : n < 256) (h : low ≤ n ∧ n ≤ high) :
    followers bits ((low, high) :: ranges) (UInt8.ofNat n :: rest)
      = followers (bits * 64 + (n - 0x80)) ranges rest := by
  rw [followers, toNat_ofNat_of_lt hn, if_pos h]

theorem decodeStep_of_lead {n bits : Nat} {ranges : List (Nat × Nat)} (rest : List UInt8)
    (hn : n < 256) (h : leadOctet n = some (bits, ranges)) :
    decodeStep (UInt8.ofNat n) rest = followers bits ranges rest := by
  unfold decodeStep
  rw [toNat_ofNat_of_lt hn, h]

/-! ## One character -/

variable {v : Nat} {c : Char} (rest : List UInt8)

theorem decodeStep_two (hc : Char.ofNat v = c) (hlow : 0x7F < v) (hhigh : v ≤ 0x7FF) :
    decodeStep (UInt8.ofNat (v / 64 % 0x20 + 0xC0)) (UInt8.ofNat (v % 0x40 + 0x80) :: rest)
      = (some c, rest) := by
  have hbits : v / 64 % 0x20 + 0xC0 - 0xC0 = v / 64 := by omega
  have hlead : leadOctet (v / 64 % 0x20 + 0xC0) = some (v / 64, [(0x80, 0xBF)]) := by
    unfold leadOctet
    rw [if_neg (by omega), if_pos (by omega), hbits]
  have hall : v / 64 * 64 + (v % 0x40 + 0x80 - 0x80) = v := by omega
  rw [decodeStep_of_lead _ (by omega) hlead, followers_cons _ _ _ (by omega) (by omega), hall,
    followers, hc]

theorem decodeStep_three (hc : Char.ofNat v = c) (hlow : 0x7FF < v) (hhigh : v ≤ 0xFFFF)
    (hv : v < 0xD800 ∨ 0xDFFF < v) :
    decodeStep (UInt8.ofNat (v / 4096 % 0x10 + 0xE0))
        (UInt8.ofNat (v / 64 % 0x40 + 0x80) :: UInt8.ofNat (v % 0x40 + 0x80) :: rest)
      = (some c, rest) := by
  have hbits : v / 4096 % 0x10 + 0xE0 - 0xE0 = v / 4096 := by omega
  -- the first follower's range leaves out what is shorter, and what is no character
  obtain ⟨low, high, hlead, hfirst⟩ : ∃ low high,
      leadOctet (v / 4096 % 0x10 + 0xE0) = some (v / 4096, [(low, high), (0x80, 0xBF)])
        ∧ low ≤ v / 64 % 0x40 + 0x80 ∧ v / 64 % 0x40 + 0x80 ≤ high := by
    unfold leadOctet
    rw [if_neg (by omega), if_neg (by omega), hbits]
    by_cases hE0 : v / 4096 % 0x10 + 0xE0 = 0xE0
    · exact ⟨0xA0, 0xBF, if_pos hE0, by omega, by omega⟩
    · rw [if_neg hE0]
      by_cases hED : v / 4096 % 0x10 + 0xE0 = 0xED
      · exact ⟨0x80, 0x9F, if_pos hED, by omega, by omega⟩
      · rw [if_neg hED, if_pos (by omega)]
        exact ⟨0x80, 0xBF, rfl, by omega, by omega⟩
  have hall : (v / 4096 * 64 + (v / 64 % 0x40 + 0x80 - 0x80)) * 64
      + (v % 0x40 + 0x80 - 0x80) = v := by omega
  rw [decodeStep_of_lead _ (by omega) hlead, followers_cons _ _ _ (by omega) hfirst,
    followers_cons _ _ _ (by omega) (by omega), hall, followers, hc]

theorem decodeStep_four (hc : Char.ofNat v = c) (hlow : 0xFFFF < v) (hhigh : v < 0x110000) :
    decodeStep (UInt8.ofNat (v / 262144 % 0x08 + 0xF0))
        (UInt8.ofNat (v / 4096 % 0x40 + 0x80) :: UInt8.ofNat (v / 64 % 0x40 + 0x80)
          :: UInt8.ofNat (v % 0x40 + 0x80) :: rest)
      = (some c, rest) := by
  have hbits : v / 262144 % 0x08 + 0xF0 - 0xF0 = v / 262144 := by omega
  -- the first follower's range leaves out what is shorter, and what is beyond the last character
  obtain ⟨low, high, hlead, hfirst⟩ : ∃ low high,
      leadOctet (v / 262144 % 0x08 + 0xF0)
          = some (v / 262144, [(low, high), (0x80, 0xBF), (0x80, 0xBF)])
        ∧ low ≤ v / 4096 % 0x40 + 0x80 ∧ v / 4096 % 0x40 + 0x80 ≤ high := by
    unfold leadOctet
    rw [if_neg (by omega), if_neg (by omega), if_neg (by omega), if_neg (by omega),
      if_neg (by omega), hbits]
    by_cases hF0 : v / 262144 % 0x08 + 0xF0 = 0xF0
    · exact ⟨0x90, 0xBF, if_pos hF0, by omega, by omega⟩
    · rw [if_neg hF0]
      by_cases hF4 : v / 262144 % 0x08 + 0xF0 = 0xF4
      · rw [if_neg (by omega)]
        exact ⟨0x80, 0x8F, if_pos hF4, by omega, by omega⟩
      · rw [if_pos (by omega)]
        exact ⟨0x80, 0xBF, rfl, by omega, by omega⟩
  have hall : ((v / 262144 * 64 + (v / 4096 % 0x40 + 0x80 - 0x80)) * 64
      + (v / 64 % 0x40 + 0x80 - 0x80)) * 64 + (v % 0x40 + 0x80 - 0x80) = v := by omega
  rw [decodeStep_of_lead _ (by omega) hlead, followers_cons _ _ _ (by omega) hfirst,
    followers_cons _ _ _ (by omega) (by omega), followers_cons _ _ _ (by omega) (by omega), hall,
    followers, hc]

/-- **A character that is encoded is read as itself**, and what comes after it is left. -/
theorem decodeStep_encode (c : Char) :
    ∃ b more, String.utf8EncodeChar c = b :: more
      ∧ decodeStep b (more ++ rest) = (some c, rest) := by
  have hvalid : c.val.toNat < 0xD800 ∨ (0xDFFF < c.val.toNat ∧ c.val.toNat < 0x110000) := c.valid
  have hc : Char.ofNat c.val.toNat = c := Char.ofNat_toNat c
  unfold String.utf8EncodeChar
  dsimp only
  by_cases h1 : c.val.toNat ≤ 0x7F
  · rw [if_pos h1]
    refine ⟨_, _, rfl, ?_⟩
    have hlead : leadOctet c.val.toNat = some (c.val.toNat, []) := by
      unfold leadOctet
      rw [if_pos (by omega)]
    rw [decodeStep_of_lead _ (by omega) hlead, followers, hc, List.nil_append]
  · rw [if_neg h1]
    by_cases h2 : c.val.toNat ≤ 0x7FF
    · rw [if_pos h2]
      exact ⟨_, _, rfl, decodeStep_two rest hc (by omega) h2⟩
    · rw [if_neg h2]
      by_cases h3 : c.val.toNat ≤ 0xFFFF
      · rw [if_pos h3]
        exact ⟨_, _, rfl, decodeStep_three rest hc (by omega) h3 (by omega)⟩
      · rw [if_neg h3]
        exact ⟨_, _, rfl, decodeStep_four rest hc (by omega) (by omega)⟩

/-- An octet below 128 is all of a character, whose number it is. -/
theorem eq_of_utf8EncodeChar {b : UInt8} {more : List UInt8}
    (h : String.utf8EncodeChar c = b :: more) (hb : b.toNat < 0x80) :
    c = Char.ofNat b.toNat ∧ more = [] := by
  obtain ⟨b', more', hc, hstep⟩ := decodeStep_encode [] c
  obtain ⟨rfl, rfl⟩ := List.cons.inj (h.symm.trans hc)
  have hlead : leadOctet b.toNat = some (b.toNat, []) := if_pos hb
  unfold decodeStep at hstep
  rw [hlead] at hstep
  dsimp only at hstep
  rw [followers, List.append_nil] at hstep
  obtain ⟨hchar, hmore⟩ := Prod.mk.inj hstep
  exact ⟨(Option.some.inj hchar).symm, hmore⟩

theorem utf8EncodeChar_of_lt (h : c.toNat < 0x80) :
    String.utf8EncodeChar c = [UInt8.ofNat c.toNat] := by
  unfold String.utf8EncodeChar
  exact if_pos (Nat.le_of_lt_succ h)

/-! ## All characters -/

theorem encode_eq (s : String) : encode s = s.toList.flatMap String.utf8EncodeChar := by
  unfold encode
  rw [String.toUTF8_eq_toByteArray, ← String.utf8Encode_toList]
  exact List.toList_data_toByteArray

theorem decodeParts_flatMap (cs : List Char) :
    decodeParts (cs.flatMap String.utf8EncodeChar) = cs.map some := by
  induction cs with
  | nil => rw [List.flatMap_nil, decodeParts, List.map_nil]
  | cons c rest ih =>
      obtain ⟨b, more, hc, hstep⟩ := decodeStep_encode (rest.flatMap String.utf8EncodeChar) c
      rw [List.flatMap_cons, hc, List.cons_append, decodeParts, hstep, ih, List.map_cons]

/-- **Encoded text is read back.** -/
theorem decodeLossy_encode (s : String) : decodeLossy (encode s) = s := by
  unfold decodeLossy
  rw [encode_eq, decodeParts_flatMap, List.map_map]
  simp [Function.comp_def]

end PacedNet.Text
