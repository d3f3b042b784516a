import PacedNet.Proofs.Address.Reparsing
import Mathlib.Data.List.TakeWhile

/-!
# Local addresses, handed out and handed back

The octets of a local address leave room for 108 behind the family. A path is followed by zeros
and read up to the first of them, an abstract name is told from a path by the zero in front of it,
and an unnamed address has nothing at all. So an address comes back from its octets exactly if it
is an abstract name, or a path that is not empty and has no zero; and whether it has octets at all
is a matter of its length (`fits_and_returns`).

What the system hands out is of one of these forms, unless it is unnamed, and what is read from a
text fits. One address remains that cannot be given back: a path that fills its room has no zero
behind it, which the system may leave out and this library does not (`given_back`).
-/

namespace PacedNet.UnixAddress

variable {a : UnixAddress} {s name body raw data : List UInt8} {length : Nat}

/-! ## From an address to its octets -/

theorem raw?_path (h : (path s).octets.length < room) :
    (path s).raw? = some (Family.unix.octets ++ (s ++ List.replicate (room - s.length) 0)) := by
  rw [← List.append_assoc]
  exact if_pos h

theorem raw?_abstract (h : (abstract name).octets.length < room) :
    (abstract name).raw? = some (Family.unix.octets ++ 0 :: name) := if_pos h

/-- An address does not fit exactly if it leaves no room for one more octet. -/
theorem raw?_eq_none : a.raw? = none ↔ room ≤ a.octets.length := by
  cases a with
  | path s =>
      by_cases h : (path s).octets.length < room
      · rw [raw?_path h]
        exact iff_of_false (by simp) (not_le.mpr h)
      · exact iff_of_true (if_neg h) (not_lt.mp h)
  | abstract name =>
      by_cases h : (abstract name).octets.length < room
      · rw [raw?_abstract h]
        exact iff_of_false (by simp) (not_le.mpr h)
      · exact iff_of_true (if_neg h) (not_lt.mp h)

/-! ## From octets to an address -/

/-- What is read of the octets of an address is what stands behind the family. -/
theorem ofRaw?_append (hroom : body.length ≤ room) :
    ofRaw? (Family.unix.octets ++ body) (Family.unix.octets ++ body).length
      = some (ofBody body) := by
  have hused : min ((Family.unix.octets ++ body).length - 2) room = body.length := by
    rw [List.length_append, Nat.add_comm]
    exact Nat.min_eq_left hroom
  have hread : (List.range body.length).map
      (fun i => octetAt (Family.unix.octets ++ body) (i + 2)) = body := by
    refine List.ext_getElem (by simp) fun i hi hi' => ?_
    simp [octetAt, Family.octets, hi']
  unfold ofRaw?
  rw [if_neg (by simp [Family.octets])]
  dsimp only
  rw [hused, hread]

theorem ofBody_cons (b : UInt8) (rest : List UInt8) : ofBody (b :: rest)
    = if b = 0 then abstract rest else path ((b :: rest).takeWhile (· ≠ 0)) := rfl

/-- The zeros behind a path are not part of it. -/
theorem ofBody_path (hne : s ≠ []) (hzero : 0 ∉ s) (n : Nat) :
    ofBody (s ++ List.replicate n 0) = path s := by
  cases s with
  | nil => exact absurd rfl hne
  | cons b rest =>
      have hall : ∀ c ∈ b :: rest, decide (c ≠ 0) = true := by
        intro c hc
        simpa using ne_of_mem_of_not_mem hc hzero
      have hb : b ≠ 0 := by simpa using hall b (by simp)
      rw [List.cons_append, ofBody_cons, if_neg hb, ← List.cons_append,
        List.takeWhile_append_of_pos hall, List.takeWhile_replicate]
      simp

/-- A path that is read has no zero in it. -/
theorem not_mem_of_ofBody (h : ofBody body = path s) : 0 ∉ s := by
  intro hzero
  cases body with
  | nil =>
      obtain rfl : [] = s := path.inj h
      simp at hzero
  | cons b rest =>
      rw [ofBody_cons] at h
      split_ifs at h
      obtain rfl : (b :: rest).takeWhile (fun c => decide (c ≠ 0)) = s := path.inj h
      exact absurd (List.mem_takeWhile_imp hzero) (by simp)

/-- Nothing that is read is longer than what it is read from. -/
theorem length_ofBody (body : List UInt8) :
    (ofBody body).octets.length ≤ body.length ∧
      ((ofBody body).isAbstract = true → (ofBody body).octets.length < body.length) := by
  cases body with
  | nil => exact ⟨le_rfl, by simp [ofBody, unnamed, isAbstract]⟩
  | cons b rest =>
      rw [ofBody_cons]
      split_ifs with hb
      · exact ⟨Nat.le_succ _, fun _ => Nat.lt_succ_self _⟩
      · exact ⟨(List.takeWhile_prefix _).length_le, by simp [isAbstract]⟩

theorem ofRaw?_eq_some (h : ofRaw? data length = some a) :
    ∃ body, body.length ≤ room ∧ ofBody body = a := by
  unfold ofRaw? at h
  split_ifs at h
  refine ⟨_, ?_, Option.some.inj h⟩
  rw [List.length_map, List.length_range]
  exact min_le_right _ _

/-! ## There and back -/

/-- An address that its octets tell from all others. -/
def IsNamed (a : UnixAddress) : Prop := a.isAbstract = true ∨ a.octets ≠ [] ∧ 0 ∉ a.octets

/-- **An address comes back from its octets exactly if they name it.** -/
theorem ofRaw?_raw? (h : a.raw? = some raw) : ofRaw? raw raw.length = some a ↔ a.IsNamed := by
  have hfits : a.octets.length < room := by
    by_contra hroom
    rw [raw?_eq_none.mpr (not_lt.mp hroom)] at h
    exact absurd h (by simp)
  cases a with
  | abstract name =>
      rw [raw?_abstract hfits] at h
      obtain rfl := Option.some.inj h
      exact iff_of_true (ofRaw?_append hfits) (.inl rfl)
  | path s =>
      have hlength : (s ++ List.replicate (room - s.length) 0).length ≤ room := by
        have : s.length < room := hfits
        rw [List.length_append, List.length_replicate]
        omega
      rw [raw?_path hfits] at h
      obtain rfl := Option.some.inj h
      rw [ofRaw?_append hlength, Option.some_inj]
      constructor
      · intro hback
        refine .inr ⟨?_, not_mem_of_ofBody hback⟩
        -- nothing but zeros would be read as an abstract name
        rintro rfl
        exact absurd hback (by decide)
      · rintro (habstract | ⟨hne, hzero⟩)
        · exact absurd habstract (by simp [isAbstract])
        · exact ofBody_path hne hzero _

/-- What lies behind the length is not read. -/
theorem ofRaw?_rest (raw rest : List UInt8) :
    ofRaw? (raw ++ rest) raw.length = ofRaw? raw raw.length := by
  have hsame : ∀ i ∈ List.range (min (raw.length - 2) room),
      octetAt (raw ++ rest) (i + 2) = octetAt raw (i + 2) := by
    intro i hi
    have hlt : i + 2 < raw.length := by
      have := List.mem_range.mp hi
      omega
    unfold octetAt
    rw [List.getD_eq_getElem?_getD, List.getD_eq_getElem?_getD, List.getElem?_append_left hlt]
  unfold ofRaw?
  dsimp only
  rw [List.map_congr_left hsame]

/-- An address is named if it is abstract, or a path that is not empty and has no zero. -/
theorem isNamed_iff : a.IsNamed ↔
    (∃ name, a = abstract name) ∨ ∃ s, a = path s ∧ s ≠ [] ∧ 0 ∉ s := by
  unfold IsNamed
  cases a with
  | path s => simp [isAbstract, octets]
  | abstract name => simp [isAbstract]

/-- **Which addresses fit, and which of them come back.** One more octet than the name has room for
is needed, by the zero in front of an abstract name or behind a path. What fits is read as the same
address, whatever lies behind its octets, exactly if it is abstract or a path with something in it
and no zero. -/
theorem fits_and_returns (a : UnixAddress) :
    (a.raw? = none ↔ (∃ s, a = path s ∧ 108 ≤ s.length)
        ∨ ∃ name, a = abstract name ∧ 108 ≤ name.length)
      ∧ ∀ raw, a.raw? = some raw → ∀ rest, ofRaw? (raw ++ rest) raw.length = some a ↔
          (∃ name, a = abstract name) ∨ ∃ s, a = path s ∧ s ≠ [] ∧ 0 ∉ s := by
  refine ⟨raw?_eq_none.trans ?_, fun raw hraw rest => ?_⟩
  · cases a with
    | path s => simp [octets, room]
    | abstract name => simp [octets, room]
  · rw [ofRaw?_rest, ofRaw?_raw? hraw, isNamed_iff]

/-- An abstract name of zeros comes back, and a path with a zero in it does not. -/
theorem fits_and_returns_zeros :
    (abstract [0, 0]).raw? = some [1, 0, 0, 0, 0]
      ∧ ofRaw? ([1, 0, 0, 0, 0] ++ List.replicate 105 0) 5 = some (abstract [0, 0])
      ∧ ∃ raw, (path [47, 0, 97]).raw? = some raw
        ∧ ofRaw? (raw ++ []) raw.length ≠ some (path [47, 0, 97]) := by
  have hzeros : (abstract [0, 0]).raw? = some [1, 0, 0, 0, 0] := by decide
  obtain ⟨-, hback⟩ := fits_and_returns (abstract [0, 0])
  obtain ⟨hfits, hlost⟩ := fits_and_returns (path [47, 0, 97])
  cases hraw : (path [47, 0, 97]).raw? with
  | none =>
      rcases hfits.mp hraw with ⟨s, hs, hlong⟩ | ⟨name, hname, -⟩
      · obtain rfl := path.inj hs
        exact absurd hlong (by decide)
      · exact absurd hname (by simp)
  | some raw =>
      refine ⟨hzeros, (hback _ hzeros _).mpr (.inl ⟨_, rfl⟩), raw, rfl, fun hsame => ?_⟩
      rcases (hlost raw hraw []).mp hsame with ⟨name, hname⟩ | ⟨s, hs, -, hnone⟩
      · exact absurd hname (by simp)
      · obtain rfl := path.inj hs
        exact hnone (by decide)

/-- What the system hands out is unnamed or names itself. -/
theorem isNamed_of_ofRaw? (h : ofRaw? data length = some a) (hne : a ≠ unnamed) : a.IsNamed := by
  obtain ⟨body, -, rfl⟩ := ofRaw?_eq_some h
  cases hread : ofBody body with
  | abstract name => exact .inl rfl
  | path s =>
      refine .inr ⟨?_, not_mem_of_ofBody hread⟩
      rintro rfl
      exact hne hread

/-- Of what the system hands out only a path without a zero behind it does not fit. -/
theorem raw?_eq_none_of_ofRaw? (h : ofRaw? data length = some a) :
    a.raw? = none ↔ ∃ s, a = path s ∧ s.length = room := by
  obtain ⟨body, hbody, rfl⟩ := ofRaw?_eq_some h
  obtain ⟨hle, hlt⟩ := length_ofBody body
  rw [raw?_eq_none]
  constructor
  · intro hroom
    cases hread : ofBody body with
    | path s =>
        rw [hread] at hle hroom
        exact ⟨s, rfl, le_antisymm (hle.trans hbody) hroom⟩
    | abstract name =>
        rw [hread] at hlt hroom
        have : name.length < body.length := hlt rfl
        have : room ≤ name.length := hroom
        omega
  · rintro ⟨s, hs, hfull⟩
    rw [hs]
    exact hfull.ge

/-- What is read from a text fits. -/
theorem isSome_raw?_of_parse {text : String} (h : Endpoint.parse text = .ok (.unix a)) :
    a.raw?.isSome = true := by
  rw [Endpoint.parse_eq] at h
  cases Endpoint.parsed_of_parseChars h with
  | abstract _ hraw => exact hraw
  | path _ _ hraw => exact hraw
  | host _ _ _ hhost =>
      obtain ⟨name, port, n, -, -, -, -, -, -, heq⟩ := Endpoint.readHost?_eq_some hhost
      exact absurd heq (by simp)

/-- **Addresses that can be given back.** What is read from a text has octets, and what is read
from octets has octets again, unless it is a path that fills its room; and they are read as the
same address, if they name one. -/
theorem given_back :
    (∀ text a, Endpoint.parse text = .ok (.unix a) →
        ∃ raw, a.raw? = some raw ∧ (a.IsNamed → ofRaw? raw raw.length = some a))
      ∧ ∀ data length a, ofRaw? data length = some a →
          (a.raw? = none ↔ ∃ s, a = path s ∧ s.length = room)
          ∧ ∀ raw, a.raw? = some raw → a ≠ unnamed → ofRaw? raw raw.length = some a := by
  refine ⟨fun text a h => ?_, fun data length a h => ⟨raw?_eq_none_of_ofRaw? h, ?_⟩⟩
  · obtain ⟨raw, hraw⟩ := Option.isSome_iff_exists.mp (isSome_raw?_of_parse h)
    exact ⟨raw, hraw, (ofRaw?_raw? hraw).mpr⟩
  · intro raw hraw hne
    exact (ofRaw?_raw? hraw).mpr (isNamed_of_ofRaw? h hne)

/-- An abstract name from a text, and a path with a zero and more behind it from the system. -/
theorem given_back_names :
    (Endpoint.parse "unix:@job" = .ok (.unix (.abstract [106, 111, 98]))
        ∧ ∃ raw, (abstract [106, 111, 98]).raw? = some raw
          ∧ ofRaw? raw raw.length = some (abstract [106, 111, 98]))
      ∧ ofRaw? [1, 0, 47, 97, 0, 98] 6 = some (path [47, 97])
      ∧ (path [47, 97]).raw? ≠ none
      ∧ ∀ raw, (path [47, 97]).raw? = some raw → ofRaw? raw raw.length = some (path [47, 97]) := by
  have htext : Endpoint.parse "unix:@job" = .ok (.unix (.abstract [106, 111, 98])) := by
    decide +kernel
  have hsystem : ofRaw? [1, 0, 47, 97, 0, 98] 6 = some (path [47, 97]) := by decide
  obtain ⟨hparse, hread⟩ := given_back
  obtain ⟨raw, hraw, hback⟩ := hparse _ _ htext
  obtain ⟨hfull, hagain⟩ := hread _ _ _ hsystem
  refine ⟨⟨htext, raw, hraw, hback (.inl rfl)⟩, hsystem, fun hnone => ?_,
    fun raw hraw => hagain raw hraw (by decide)⟩
  obtain ⟨s, hs, hlength⟩ := hfull.mp hnone
  obtain rfl := path.inj hs
  exact absurd hlength (by decide)

/-- A path that fills its room. -/
def brimful : UnixAddress := path (List.replicate room 97)

/-- The system may hand out a path that it cannot be given back. -/
theorem brimful_unfit :
    ofRaw? (Family.unix.octets ++ List.replicate room 97) 110 = some brimful
      ∧ brimful.raw? = none
      ∧ ¬ ((∀ text a, Endpoint.parse text = .ok (.unix a) →
            ∃ raw, a.raw? = some raw ∧ ofRaw? raw raw.length = some a)
          ∧ ∀ data length a, ofRaw? data length = some a →
            ∃ raw, a.raw? = some raw ∧ ofRaw? raw raw.length = some a) := by
  have hread : ofRaw? (Family.unix.octets ++ List.replicate room 97) 110 = some brimful := by
    decide +kernel
  have hunfit : brimful.raw? = none := by decide +kernel
  refine ⟨hread, hunfit, fun ⟨_, hall⟩ => ?_⟩
  obtain ⟨raw, hraw, -⟩ := hall _ _ _ hread
  rw [hunfit] at hraw
  exact absurd hraw (by simp)

end PacedNet.UnixAddress
