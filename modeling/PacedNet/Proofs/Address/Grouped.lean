import PacedNet.Proofs.Address.Dotted

/-!
# Addresses of version 6 and their text

The text of an address of version 6 comes in three forms: eight groups, groups around the two colons
that stand for the longest run of zeros, or a version 4 address behind a mark. All are read back by
one reader. It tries a version 4 address before each group, which a written group never looks like,
as no point follows it; and it stops at the two colons, where no group starts (`readGroups_chars`).

No address of version 6 is written with fewer than two colons, and none is read from fewer either
(`spends_readIp6`).
-/

namespace PacedNet

namespace Ip

variable {rest s : List Char} {c : Char}

/-! ## Groups -/

def isHex (c : Char) : Bool := (hexDigit? c).isSome

theorem hexDigit?_digitChar : ∀ d < 16, hexDigit? (Nat.digitChar d) = some d := by decide

theorem isHex_of_mem_toDigits {n : Nat} (h : c ∈ Nat.toDigits 16 n) : isHex c = true := by
  obtain ⟨d, hd, rfl⟩ := mem_toDigits (by decide) h
  unfold isHex
  rw [hexDigit?_digitChar d hd]
  rfl

theorem isHex_of_isDigit (h : isDigit c = true) : isHex c = true := by
  unfold isDigit at h
  rw [Bool.and_eq_true, decide_eq_true_eq, decide_eq_true_eq] at h
  unfold isHex hexDigit?
  rw [if_pos h]
  rfl

theorem Stops.digits (h : Stops isHex rest) : Stops isDigit rest := by
  intro c hc
  by_contra hdigit
  have hhex := isHex_of_isDigit (Bool.not_eq_false _ ▸ hdigit)
  rw [h c hc] at hhex
  exact absurd hhex (by decide)

theorem readHex_toDigits (g : UInt16) (h : Stops isHex rest) :
    readHex (Nat.toDigits 16 g.toNat ++ rest) = some (g, rest) := by
  have hg : g.toNat < 65536 := g.toNat_lt
  have htake : (Nat.toDigits 16 g.toNat ++ rest).takeWhile (fun c => (hexDigit? c).isSome)
      = Nat.toDigits 16 g.toNat := (Text.takeWhile_run (fun c hc => isHex_of_mem_toDigits hc) h).1
  have hlength : (Nat.toDigits 16 g.toNat).length ≤ 4 :=
    (Nat.length_toDigits_le_iff (by decide) (by decide)).mpr (by omega)
  have hvalue : (Nat.toDigits 16 g.toNat).foldl (fun n c => 16 * n + (hexDigit? c).getD 0) 0
      = g.toNat := by
    refine foldl_toDigits (by decide) fun m d hd => ?_
    rw [hexDigit?_digitChar d hd]
    rfl
  unfold readHex
  dsimp only
  rw [htake, if_pos ⟨Nat.length_toDigits_pos, hlength⟩, hvalue, List.drop_left]
  simp

theorem readHex_of_stops (h : Stops isHex s) : readHex s = none := by
  have htake := (Text.takeWhile_append [] h).1
  have htake : s.takeWhile (fun c => (hexDigit? c).isSome) = [] := htake
  unfold readHex
  dsimp only
  rw [htake]
  rfl

/-- Without a point behind its first number, a text is no version 4 address. -/
theorem readIp4_eq_none (h : (s.dropWhile isDigit).head? ≠ some '.') : readIp4 s = none := by
  unfold readIp4
  cases hread : readOctet s with
  | none => rfl
  | some found =>
      obtain ⟨a, rest⟩ := found
      have hexpect : expect '.' rest = none := by
        rw [readOctet_rest hread]
        cases hrest : s.dropWhile isDigit with
        | nil => rfl
        | cons d rest => exact expect_of_ne (fun he => h (by rw [hrest, he]; rfl)) rest
      simp only [Option.bind_eq_bind, Option.bind_some, hexpect, Option.bind_none]

theorem readIp4_toDigits (g : UInt16) (h : Stops isHex rest) (hpoint : rest.head? ≠ some '.') :
    readIp4 (Nat.toDigits 16 g.toNat ++ rest) = none := by
  refine readIp4_eq_none ?_
  rw [(Text.takeWhile_append _ h.digits).2]
  intro hhead
  cases hleft : (Nat.toDigits 16 g.toNat).dropWhile isDigit with
  | nil => rw [hleft] at hhead; exact hpoint hhead
  | cons d left =>
      -- a hexadecimal digit is no point
      rw [hleft] at hhead
      have hd : d = '.' := by simpa using hhead
      have hmem : d ∈ Nat.toDigits 16 g.toNat :=
        List.dropWhile_subset isDigit (hleft ▸ List.mem_cons_self)
      have hhex := isHex_of_mem_toDigits hmem
      rw [hd] at hhex
      exact absurd hhex (by decide)

/-! ## Rows of groups -/

/-- Groups as they are written, each behind a colon but for the first of a row. -/
def groupsChars : Bool → List UInt16 → List Char
  | _, [] => []
  | first, g :: gs =>
    (if first then [] else [':']) ++ Nat.toDigits 16 g.toNat ++ groupsChars false gs

theorem toList_groupsText (gs : List UInt16) :
    (Ip6.groupsText gs).toList = groupsChars true gs := by
  have hcolon : ":".toList = [':'] := rfl
  unfold Ip6.groupsText
  rw [String.toList_intercalate, List.map_map, hcolon]
  cases gs with
  | nil => rfl
  | cons g gs =>
      show [':'].intercalate (_ :: gs.map _) = Nat.toDigits 16 g.toNat ++ groupsChars false gs
      induction gs generalizing g with
      | nil => simp [groupsChars]
      | cons g' gs ih =>
          rw [List.map_cons, List.intercalate_cons_cons, ih g']
          simp [groupsChars]

/-- What comes next starts no group, behind a colon or not. -/
structure Ends (rest : List Char) : Prop where
  stops : Stops isHex rest
  noPoint : rest.head? ≠ some '.'
  behind : ∀ t, rest = ':' :: t → Stops isHex t

theorem Ends.groupsChars (h : Ends rest) (gs : List UInt16) :
    Stops isHex (groupsChars false gs ++ rest)
      ∧ (groupsChars false gs ++ rest).head? ≠ some '.' := by
  cases gs with
  | nil => exact ⟨h.stops, h.noPoint⟩
  | cons g gs => exact ⟨stops_cons (by decide), by simp [Ip.groupsChars]⟩

theorem readIp4_of_stops (h : Stops isHex s) : readIp4 s = none := by
  have htake : s.takeWhile isDigit = [] := (Text.takeWhile_append [] h.digits).1
  have hoctet : readOctet s = none := by
    unfold readOctet readUpTo
    dsimp only
    rw [htake]
    rfl
  unfold readIp4
  rw [hoctet]
  rfl

theorem Ends.separated {α : Type} {read : Reader α} (h : Ends rest)
    (hread : ∀ s, Stops isHex s → read s = none) (first : Bool) :
    separated first read rest = none := by
  unfold Ip.separated
  cases first with
  | true => exact hread rest h.stops
  | false =>
      cases rest with
      | nil => rfl
      | cons c t =>
          by_cases hc : c = ':'
          · subst hc
            simp only [Bool.false_eq_true, if_false, expect_cons, Option.bind_eq_bind,
              Option.bind_some]
            exact hread t (h.behind t rfl)
          · simp only [Bool.false_eq_true, if_false, expect_of_ne hc]
            rfl

theorem separated_cons {α : Type} (read : Reader α) (first : Bool) (s : List Char) :
    separated first read ((if first then [] else [':']) ++ s) = read s := by
  cases first with
  | true => rfl
  | false =>
      unfold separated
      simp only [Bool.false_eq_true, if_false, List.cons_append, List.nil_append, expect_cons,
        Option.bind_eq_bind, Option.bind_some]

/-- A written group is no version 4 address. -/
theorem separated_readIp4 (first : Bool) (g : UInt16) (gs : List UInt16) (h : Ends rest) :
    separated first readIp4 (groupsChars first (g :: gs) ++ rest) = none := by
  obtain ⟨hstops, hpoint⟩ := h.groupsChars gs
  rw [groupsChars, List.append_assoc, List.append_assoc, separated_cons]
  exact readIp4_toDigits g hstops hpoint

theorem separated_readHex (first : Bool) (g : UInt16) (gs : List UInt16) (h : Ends rest) :
    separated first readHex (groupsChars first (g :: gs) ++ rest)
      = some (g, groupsChars false gs ++ rest) := by
  rw [groupsChars, List.append_assoc, List.append_assoc, separated_cons]
  exact readHex_toDigits g (h.groupsChars gs).1

/-- **A row of groups is read**, up to where none starts. -/
theorem readGroups_chars (gs : List UInt16) (first : Bool) {limit : Nat}
    (hlimit : gs.length ≤ limit) (h : Ends rest) :
    readGroups first limit (groupsChars first gs ++ rest) = (gs, false, rest) := by
  induction gs generalizing first limit with
  | nil =>
      have hempty : groupsChars first [] ++ rest = rest := by cases first <;> rfl
      rw [hempty]
      cases limit with
      | zero => cases first <;> rfl
      | succ n =>
          rw [readGroups, h.separated (fun s => readIp4_of_stops), ite_self,
            h.separated fun s => readHex_of_stops]
  | cons g gs ih =>
      cases limit with
      | zero => exact absurd hlimit (by simp)
      | succ n =>
          rw [readGroups, separated_readIp4 first g gs h, ite_self, separated_readHex first g gs h]
          dsimp only
          rw [ih false (Nat.le_of_succ_le_succ hlimit)]

end Ip

/-! ## What is left out -/

namespace Ip6

theorem ofGroups_groups (x : Ip6) : ofGroups x.groups = x := by
  obtain ⟨groups, height⟩ := x
  have htake : (groups ++ List.replicate 8 0).take 8 = groups := by
    rw [List.take_append_of_le_length (by omega), List.take_of_length_le (by omega)]
  unfold ofGroups
  simp only [htake]

/-- What the longest run is said to be is a run. -/
theorem longestZeros_le (gs : List UInt16) :
    (longestZeros gs).2 ≤ zerosFrom gs (longestZeros gs).1 := by
  have hfold (is : List Nat) (best : Nat × Nat) (hbest : best.2 ≤ zerosFrom gs best.1) :
      (is.foldl (fun best i => if best.2 < zerosFrom gs i then (i, zerosFrom gs i) else best)
          best).2
        ≤ zerosFrom gs (is.foldl (fun best i =>
          if best.2 < zerosFrom gs i then (i, zerosFrom gs i) else best) best).1 := by
    induction is generalizing best with
    | nil => exact hbest
    | cons i is ih =>
        rw [List.foldl_cons]
        refine ih _ ?_
        by_cases hlt : best.2 < zerosFrom gs i
        · rw [if_pos hlt]
        · rw [if_neg hlt]
          exact hbest
  exact hfold _ (0, 0) (Nat.zero_le _)

/-- The groups are what stands before a run of zeros, the zeros, and what stands behind. -/
theorem eq_around_zeros {gs : List UInt16} {i k : Nat} (hk : k ≤ zerosFrom gs i) :
    gs = gs.take i ++ List.replicate k 0 ++ gs.drop (i + k) := by
  have hrun := List.takeWhile_append_dropWhile (p := (· == 0)) (l := gs.drop i)
  have hzeros : (gs.drop i).take k = List.replicate k 0 := by
    rw [← hrun, List.take_append_of_le_length hk]
    refine List.eq_replicate_iff.mpr ⟨List.length_take_of_le hk, fun g hg => ?_⟩
    simpa using List.mem_takeWhile_imp (List.take_subset _ _ hg)
  rw [← hzeros, List.append_assoc, ← List.drop_drop, List.take_append_drop, List.take_append_drop]

theorem pairValue_octetPair (n : UInt16) :
    pairValue (UInt8.ofNat (n.toNat / 256)) (UInt8.ofNat (n.toNat % 256)) = n := by
  have hn : n.toNat < 65536 := n.toNat_lt
  unfold pairValue
  rw [UInt8.toNat_ofNat', UInt8.toNat_ofNat', Nat.mod_eq_of_lt (by omega),
    Nat.mod_eq_of_lt (by omega), Nat.div_add_mod', UInt16.ofNat_toNat]

/-- The three ways in which an address is written. -/
theorem text_cases (x : Ip6) :
    x.text.toList = Ip.groupsChars true x.groups
      ∨ (∃ i k, 1 < k ∧ x.groups = x.groups.take i ++ List.replicate k 0 ++ x.groups.drop (i + k)
        ∧ x.text.toList = Ip.groupsChars true (x.groups.take i)
          ++ ':' :: ':' :: Ip.groupsChars true (x.groups.drop (i + k)))
      ∨ ∃ ip : Ip4, x.groups
            = List.replicate 5 0 ++ [0xFFFF, pairValue ip.a ip.b, pairValue ip.c ip.d]
        ∧ x.text.toList = ':' :: ':' :: (Ip.groupsChars true [0xFFFF] ++ ':' :: ip.text.toList) := by
  unfold text
  split
  · rename_i high low hgroups
    refine .inr (.inr ⟨⟨UInt8.ofNat (high.toNat / 256), UInt8.ofNat (high.toNat % 256),
      UInt8.ofNat (low.toNat / 256), UInt8.ofNat (low.toNat % 256)⟩, ?_, ?_⟩)
    · rw [pairValue_octetPair, pairValue_octetPair]
      exact hgroups
    · have hmark : "::ffff:".toList = ':' :: ':' :: (Ip.groupsChars true [0xFFFF] ++ [':']) := by
        decide
      show ("::ffff:" ++ Ip4.text _).toList = _
      rw [String.toList_append, hmark]
      simp
  · dsimp only
    by_cases hlong : 1 < (longestZeros x.groups).2
    · rw [if_pos hlong]
      have haround := eq_around_zeros (longestZeros_le x.groups)
      refine .inr (.inl ⟨(longestZeros x.groups).1, (longestZeros x.groups).2, hlong, haround, ?_⟩)
      have hcolons : "::".toList = [':', ':'] := rfl
      simp only [String.toList_append, Ip.toList_groupsText, hcolons, List.append_assoc,
        List.cons_append, List.nil_append]
    · rw [if_neg hlong]
      exact .inl (Ip.toList_groupsText _)

end Ip6

namespace Ip

/-- Two colons start no group. -/
theorem ends_colons (s : List Char) : Ends (':' :: ':' :: s) := by
  refine ⟨stops_cons (by decide), by simp, fun t ht => ?_⟩
  injection ht with _ ht
  exact ht ▸ stops_cons (by decide)

theorem readIp6_colons (front : List UInt16) (hfront : front.length < 8) (s : List Char) :
    readIp6 (groupsChars true front ++ ':' :: ':' :: s)
      = some (.ofGroups (front ++ List.replicate
            (8 - front.length - (readGroups true (7 - front.length) s).1.length) 0
          ++ (readGroups true (7 - front.length) s).1),
        (readGroups true (7 - front.length) s).2.2) := by
  unfold readIp6
  rw [readGroups_chars front true (by omega) (ends_colons s)]
  dsimp only
  rw [if_neg (by omega), if_neg Bool.false_ne_true, expect_cons]
  simp only [Option.bind_eq_bind, Option.bind_some, expect_cons]
  rfl

/-- A version 4 address behind the mark ends the groups. -/
theorem readGroups_marked {ip : Ip4} (h : readIp4 s = some (ip, rest)) :
    readGroups true 7 (groupsChars true [0xFFFF] ++ ':' :: s)
      = ([0xFFFF, pairValue ip.a ip.b, pairValue ip.c ip.d], true, rest) := by
  have hcolon : Stops isHex (':' :: s) := stops_cons (by decide)
  have hgroups : groupsChars true [0xFFFF] = Nat.toDigits 16 (0xFFFF : UInt16).toNat := by decide
  have hmark : separated true readIp4 (groupsChars true [0xFFFF] ++ ':' :: s) = none :=
    hgroups ▸ readIp4_toDigits 0xFFFF hcolon (by simp)
  have hhex : separated true readHex (groupsChars true [0xFFFF] ++ ':' :: s)
      = some (0xFFFF, ':' :: s) := hgroups ▸ readHex_toDigits 0xFFFF hcolon
  have hip : separated false readIp4 (':' :: s) = some (ip, rest) :=
    (separated_cons readIp4 false s).trans h
  rw [readGroups, hmark, ite_self, hhex]
  dsimp only
  rw [readGroups, if_neg (by decide), hip]

/-- **A written address is read.** -/
theorem readIp6_text (x : Ip6) (h : Ends rest) :
    readIp6 (x.text.toList ++ rest) = some (x, rest) := by
  have height := x.eight
  rcases x.text_cases with htext | ⟨i, k, hk, hgroups, htext⟩ | ⟨ip, hgroups, htext⟩
  · rw [htext]
    unfold readIp6
    rw [readGroups_chars x.groups true (by omega) h]
    dsimp only
    rw [if_pos height, Ip6.ofGroups_groups]
  · -- the groups that are left out are as many as are missing
    have hlength := congrArg List.length hgroups
    simp only [List.length_append, List.length_take, List.length_replicate, List.length_drop,
      height] at hlength
    have hfront : (x.groups.take i).length = i := by
      rw [List.length_take]
      omega
    have hback : (x.groups.drop (i + k)).length = 8 - i - k := by
      rw [List.length_drop]
      omega
    have hzeros : 8 - i - (8 - i - k) = k := by omega
    rw [htext, List.append_assoc, List.cons_append, List.cons_append,
      readIp6_colons _ (by omega), hfront,
      readGroups_chars (x.groups.drop (i + k)) true (by omega) h]
    dsimp only
    rw [hback, hzeros, ← hgroups, Ip6.ofGroups_groups]
  · have hread := readIp6_colons [] (by decide)
      (groupsChars true [0xFFFF] ++ ':' :: (ip.text.toList ++ rest))
    have hmarked := readGroups_marked (readIp4_text ip h.stops.digits)
    have hlimit : 7 - ([] : List UInt16).length = 7 := rfl
    rw [hlimit, hmarked] at hread
    have hall : Ip6.ofGroups ([] ++ List.replicate 5 0
        ++ [0xFFFF, pairValue ip.a ip.b, pairValue ip.c ip.d]) = x := by
      rw [List.nil_append, ← hgroups, Ip6.ofGroups_groups]
    rw [htext, ← hall]
    simpa [groupsChars] using hread

/-! ## How many colons there are -/

theorem suffix_of_readHex {g : UInt16} (h : readHex s = some (g, rest)) : rest <:+ s := by
  unfold readHex at h
  dsimp only at h
  split at h
  · injection h with h
    injection h with _ h
    exact h ▸ List.drop_suffix _ s
  · exact absurd h (by simp)

theorem spends_separated {α : Type} {read : Reader α} {first : Bool} {a : α}
    (hread : ∀ s a rest, read s = some (a, rest) → rest <:+ s)
    (h : separated first read s = some (a, rest)) : Spends (if first then 0 else 1) s rest := by
  unfold separated at h
  cases first with
  | true => exact .of_suffix (hread s a rest h)
  | false =>
      obtain ⟨⟨u, t⟩, hcolon, h⟩ := Option.bind_eq_some_iff.mp h
      exact (spends_colon hcolon).trans (.of_suffix (hread t a rest h))

/-- Each group but the first takes a colon, and a version 4 address is two groups. -/
theorem spends_readGroups (first : Bool) (limit : Nat) (s : List Char) :
    (readGroups first limit s).2.2 <:+ s
      ∧ (readGroups first limit s).2.2.count ':' + (readGroups first limit s).1.length
        ≤ s.count ':' + if first then 2 else 1 := by
  induction limit generalizing first s with
  | zero =>
      rw [readGroups]
      exact ⟨List.suffix_refl _, by simp⟩
  | succ n ih =>
      rw [readGroups]
      cases hip : (if n = 0 then none else separated first readIp4 s) with
      | some found =>
          obtain ⟨ip, left⟩ := found
          have hread : separated first readIp4 s = some (ip, left) := by
            by_cases hn : n = 0
            · rw [if_pos hn] at hip
              exact absurd hip (by simp)
            · rwa [if_neg hn] at hip
          obtain ⟨hsuffix, hcount⟩ := spends_separated (fun _ _ _ => suffix_of_readIp4) hread
          refine ⟨hsuffix, ?_⟩
          show left.count ':' + 2 ≤ _
          cases first <;> simp at hcount ⊢ <;> omega
      | none =>
          dsimp only
          cases hhex : separated first readHex s with
          | none => exact ⟨List.suffix_refl _, by simp⟩
          | some found =>
              obtain ⟨group, left⟩ := found
              obtain ⟨hsuffix, hcount⟩ := spends_separated (fun _ _ _ => suffix_of_readHex) hhex
              obtain ⟨hsuffix', hcount'⟩ := ih false left
              refine ⟨hsuffix'.trans hsuffix, ?_⟩
              show (readGroups false n left).2.2.count ':'
                + ((readGroups false n left).1.length + 1) ≤ _
              cases first <;> simp at hcount hcount' ⊢ <;> omega

/-- **No address is read from fewer than two colons.** -/
theorem spends_readIp6 {x : Ip6} (h : readIp6 s = some (x, rest)) : Spends 2 s rest := by
  have hfront := spends_readGroups true 8 s
  unfold readIp6 at h
  generalize readGroups true 8 s = front at h hfront
  obtain ⟨groups, mixed, left⟩ := front
  obtain ⟨hsuffix, hcount⟩ := hfront
  dsimp only at h hsuffix hcount
  by_cases hfull : groups.length = 8
  · rw [if_pos hfull] at h
    injection h with h
    injection h with _ h
    subst h
    rw [hfull, if_pos rfl] at hcount
    exact ⟨hsuffix, by omega⟩
  · rw [if_neg hfull] at h
    cases mixed with
    | true => exact absurd h (by simp)
    | false =>
        obtain ⟨⟨_, s1⟩, h1, h⟩ := Option.bind_eq_some_iff.mp h
        obtain ⟨⟨_, s2⟩, h2, h⟩ := Option.bind_eq_some_iff.mp h
        injection h with h
        injection h with _ h
        have hback := (spends_readGroups true (7 - groups.length) s2).1
        rw [← h]
        exact (Spends.of_suffix hsuffix).trans
          ((spends_colon h1).trans ((spends_colon h2).trans (.of_suffix hback)))

end Ip

namespace Inet6

/-- A zone as it is written: nothing for none. -/
def scopeChars (scope : UInt32) : List Char :=
  if scope = 0 then [] else '%' :: Nat.toDigits 10 scope.toNat

theorem toList_text (x : Inet6) :
    x.text.toList = '[' :: (x.ip.text.toList
      ++ (scopeChars x.scope ++ ']' :: ':' :: Nat.toDigits 10 x.port.toNat)) := by
  have hopen : (toString "[").toList = ['['] := rfl
  have hclose : (toString "]:").toList = [']', ':'] := rfl
  have hpercent : (toString "%").toList = ['%'] := rfl
  unfold text scopeChars
  by_cases hscope : x.scope = 0
  · rw [if_pos hscope, if_pos hscope]
    simp only [String.toList_append, toList_toString, hopen, hclose, List.append_assoc,
      List.cons_append, List.nil_append]
    rfl
  · rw [if_neg hscope, if_neg hscope]
    simp only [String.toList_append, toList_toString, hopen, hclose, hpercent, List.append_assoc,
      List.cons_append, List.nil_append]
    rfl

theorem readScope_chars (scope : UInt32) (s : List Char) :
    Ip.readScope (scopeChars scope ++ ']' :: s) = (scope, ']' :: s) := by
  have hmax : scope.toNat ≤ 4294967295 := Nat.le_of_lt_succ scope.toNat_lt
  unfold Ip.readScope scopeChars
  by_cases hscope : scope = 0
  · rw [if_pos hscope, List.nil_append, Ip.expect_of_ne (by decide), hscope]
    rfl
  · rw [if_neg hscope, List.cons_append, Ip.expect_cons]
    simp only [Option.bind_eq_bind, Option.bind_some]
    rw [Ip.readUpTo_toDigits hmax (Ip.stops_cons (by decide))]
    simp

theorem ends_scope (scope : UInt32) (s : List Char) : Ip.Ends (scopeChars scope ++ ']' :: s) := by
  unfold scopeChars
  split
  all_goals
    exact ⟨Ip.stops_cons (by decide), by simp, fun t ht => absurd (List.cons.inj ht).1 (by decide)⟩

/-- **What is written of an address, a zone and a port is read as all three.** -/
theorem read?_text (x : Inet6) : read? x.text.toList = some x := by
  rw [x.toList_text]
  unfold read?
  rw [Ip.expect_cons]
  simp only [Option.bind_eq_bind, Option.bind_some]
  rw [Ip.readIp6_text x.ip (ends_scope _ _)]
  simp only [Option.bind_some]
  rw [readScope_chars, Ip.expect_cons]
  simp only [Option.bind_some]
  rw [Ip.readPort_toDigits]
  rfl

theorem two_le_count_of_read? {s : List Char} {x : Inet6} (h : read? s = some x) :
    2 ≤ s.count ':' := by
  unfold read? at h
  obtain ⟨⟨_, s1⟩, h1, h⟩ := Option.bind_eq_some_iff.mp h
  obtain ⟨⟨ip, s2⟩, h2, h⟩ := Option.bind_eq_some_iff.mp h
  have hsuffix := Ip.suffix_of_expect h1
  obtain ⟨-, hcount⟩ := Ip.spends_readIp6 h2
  have hle := hsuffix.sublist.count_le ':'
  omega

end Inet6

end PacedNet
