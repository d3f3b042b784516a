/-!
# Reading octets as text

The UTF-8 encoding, read either strictly or with a replacement character for
each maximal part that no character starts with. Both readers share one step:
a lead octet fixes the ranges its followers have to lie in, and the step takes
followers as long as they do.
-/

namespace PacedNet.Text

/-- The payload bits of a lead octet and the ranges its followers lie in. -/
def leadOctet (b : Nat) : Option (Nat × List (Nat × Nat)) :=
  let any := (0x80, 0xBF)
  if b < 0x80 then some (b, [])
  else if 0xC2 ≤ b ∧ b ≤ 0xDF then some (b - 0xC0, [any])
  else if b = 0xE0 then some (b - 0xE0, [(0xA0, 0xBF), any])
  else if b = 0xED then some (b - 0xE0, [(0x80, 0x9F), any])
  else if 0xE1 ≤ b ∧ b ≤ 0xEF then some (b - 0xE0, [any, any])
  else if b = 0xF0 then some (b - 0xF0, [(0x90, 0xBF), any, any])
  else if 0xF1 ≤ b ∧ b ≤ 0xF3 then some (b - 0xF0, [any, any, any])
  else if b = 0xF4 then some (b - 0xF0, [(0x80, 0x8F), any, any])
  else none

/-- Takes followers while they lie in their ranges; the character, if all did, and what is left. -/
def followers : Nat → List (Nat × Nat) → List UInt8 → Option Char × List UInt8
  | bits, [], rest => (some (Char.ofNat bits), rest)
  | _, _ :: _, [] => (none, [])
  | bits, (low, high) :: ranges, b :: rest =>
    if low ≤ b.toNat ∧ b.toNat ≤ high then followers (bits * 64 + (b.toNat - 0x80)) ranges rest
    else (none, b :: rest)

theorem length_followers (bits : Nat) (ranges : List (Nat × Nat)) (s : List UInt8) :
    (followers bits ranges s).2.length ≤ s.length := by
  induction bits, ranges, s using followers.induct with
  | case1 bits rest => exact Nat.le_refl _
  | case2 bits range ranges => exact Nat.le_refl _
  | case3 bits low high ranges b rest hin ih =>
      rw [followers, if_pos hin]
      exact Nat.le_succ_of_le ih
  | case4 bits low high ranges b rest hout => exact Nat.le_of_eq (by rw [followers, if_neg hout])

/-- The first character, or none for the maximal part that starts no character, and what is left. -/
def decodeStep (b : UInt8) (rest : List UInt8) : Option Char × List UInt8 :=
  match leadOctet b.toNat with
  | some (bits, ranges) => followers bits ranges rest
  | none => (none, rest)

theorem length_decodeStep (b : UInt8) (rest : List UInt8) :
    (decodeStep b rest).2.length ≤ rest.length := by
  unfold decodeStep
  split
  · exact length_followers ..
  · exact Nat.le_refl _

/-- The characters of a list of octets, with none for each part that is no character. -/
def decodeParts (s : List UInt8) : List (Option Char) :=
  match s with
  | [] => []
  | b :: rest => (decodeStep b rest).1 :: decodeParts (decodeStep b rest).2
termination_by s.length
decreasing_by
  have := length_decodeStep b rest
  simp only [List.length_cons]
  omega

/-- The text of octets, with a replacement character for each part that is none. -/
def decodeLossy (s : List UInt8) : String :=
  String.ofList ((decodeParts s).map fun c => c.getD '\ufffd')

/-- The text of octets that are the encoding of one. -/
def decode? (s : List UInt8) : Option String :=
  ((decodeParts s).mapM id).map String.ofList

def encode (s : String) : List UInt8 := s.toUTF8.data.toList

end PacedNet.Text
