import PacedNet.Address.Ip
import PacedNet.Proofs.Number.Digits
import PacedNet.Proofs.Text.Cutting

/-!
# Addresses of version 4 and their text

What is written of an address is read as that address. A reader takes the longest run that it can,
so that it matters what comes next: a number ends where no digit does (`Stops`). Where a text goes on
with something that a reader never takes, the reader does as if the text ended there (`IsLocal`),
which is why the same address is found at the end of a text and in front of a colon.
-/

namespace PacedNet

namespace Ip

/-- What comes next is not of the kind that a run consists of. -/
def Stops (p : Char → Bool) (rest : List Char) : Prop := ∀ c, rest.head? = some c → p c = false

variable {α β : Type} {p : Char → Bool} {ds rest s : List Char} {c : Char} {bound n : Nat}

theorem stops_nil : Stops p [] := by
  intro c hc
  exact absurd hc (by simp)

theorem stops_cons (h : p c = false) : Stops p (c :: rest) := by
  intro d hd
  rw [List.head?_cons] at hd
  injection hd with hd
  exact hd ▸ h

theorem readUpTo_digits (hne : ds ≠ []) (hds : ∀ c ∈ ds, isDigit c = true)
    (hbound : digitsValue ds ≤ bound) (h : Stops isDigit rest) :
    readUpTo bound (ds ++ rest) = some (digitsValue ds, rest) := by
  obtain ⟨htake, hdrop⟩ := Text.takeWhile_run hds h
  unfold readUpTo
  dsimp only
  rw [htake, hdrop, if_neg]
  simpa [hne] using hbound

theorem readUpTo_toDigits (hn : n ≤ bound) (h : Stops isDigit rest) :
    readUpTo bound (Nat.toDigits 10 n ++ rest) = some (n, rest) := by
  have hvalue := digitsValue_toDigits n
  have hread := readUpTo_digits Nat.toDigits_ne_nil (fun c hc => isDigit_of_mem_toDigits hc)
    (hvalue.trans_le hn) h
  rwa [hvalue] at hread

theorem readOctet_toDigits (a : UInt8) (h : Stops isDigit rest) :
    readOctet (Nat.toDigits 10 a.toNat ++ rest) = some (a, rest) := by
  have ha : a.toNat < 256 := a.toNat_lt
  obtain ⟨htake, -⟩ := Text.takeWhile_run (fun c hc => isDigit_of_mem_toDigits (n := a.toNat) hc) h
  have hlength : (Nat.toDigits 10 a.toNat).length ≤ 3 :=
    (Nat.length_toDigits_le_iff (by decide) (by decide)).mpr (by omega)
  have hzero : ¬ (1 < (Nat.toDigits 10 a.toNat).length
      ∧ (Nat.toDigits 10 a.toNat).head? = some '0') := by
    rintro ⟨hlong, hhead⟩
    refine head?_toDigits_ten (fun hnil => ?_) hhead
    rw [hnil, Nat.toDigits_zero] at hlong
    exact absurd hlong (by decide)
  unfold readOctet
  dsimp only
  rw [htake, if_neg fun hlong => hlong.elim (by omega) hzero, readUpTo_toDigits (by omega) h]
  simp

@[simp]
theorem expect_cons (c : Char) (rest : List Char) : expect c (c :: rest) = some ((), rest) :=
  if_pos rfl

theorem expect_of_ne {d : Char} (h : d ≠ c) (rest : List Char) : expect c (d :: rest) = none :=
  if_neg h

end Ip

theorem Ip4.toList_text (x : Ip4) : x.text.toList
    = Nat.toDigits 10 x.a.toNat ++ '.' :: (Nat.toDigits 10 x.b.toNat
      ++ '.' :: (Nat.toDigits 10 x.c.toNat ++ '.' :: Nat.toDigits 10 x.d.toNat)) := by
  have hpoint : (toString ".").toList = ['.'] := rfl
  unfold text
  simp only [String.toList_append, toList_toString, hpoint, List.append_assoc, List.cons_append,
    List.nil_append]

namespace Ip

variable {α β : Type} {p : Char → Bool} {ds rest s : List Char} {c : Char} {bound n : Nat}

/-- **A written address is read.** -/
theorem readIp4_text (x : Ip4) (h : Stops isDigit rest) :
    readIp4 (x.text.toList ++ rest) = some (x, rest) := by
  have hpoint (t : List Char) : Stops isDigit ('.' :: t) := stops_cons (by decide)
  rw [x.toList_text]
  simp only [List.append_assoc, List.cons_append]
  unfold readIp4
  rw [readOctet_toDigits x.a (hpoint _)]
  simp only [Option.bind_eq_bind, Option.bind_some, expect_cons]
  rw [readOctet_toDigits x.b (hpoint _)]
  simp only [Option.bind_some, expect_cons]
  rw [readOctet_toDigits x.c (hpoint _)]
  simp only [Option.bind_some, expect_cons]
  rw [readOctet_toDigits x.d h]
  rfl

/-! ## What is not looked at -/

/-- The reader does the same whether a text ends or goes on like this. -/
def IsLocal (read : Reader α) (rest : List Char) : Prop :=
  ∀ s, read (s ++ rest) = (read s).map fun found => (found.1, found.2 ++ rest)

theorem IsLocal.bind {read : Reader α} {next : α × List Char → Option (β × List Char)}
    (h : IsLocal read rest)
    (hnext : ∀ a s, next (a, s ++ rest)
      = (next (a, s)).map fun found => (found.1, found.2 ++ rest)) (s : List Char) :
    (read (s ++ rest)).bind next
      = ((read s).bind next).map fun found => (found.1, found.2 ++ rest) := by
  rw [h s]
  cases read s with
  | none => rfl
  | some found => exact hnext found.1 found.2

theorem isLocal_expect (h : rest.head? ≠ some c) : IsLocal (expect c) rest := by
  intro s
  cases s with
  | nil =>
      cases rest with
      | nil => rfl
      | cons d rest => exact expect_of_ne (fun he => h (by rw [he]; rfl)) rest
  | cons d s =>
      by_cases hd : d = c
      · subst hd
        rw [List.cons_append, expect_cons, expect_cons]
        rfl
      · rw [List.cons_append, expect_of_ne hd, expect_of_ne hd]
        rfl

theorem isLocal_readUpTo (bound : Nat) (h : Stops isDigit rest) :
    IsLocal (readUpTo bound) rest := by
  intro s
  obtain ⟨htake, hdrop⟩ := Text.takeWhile_append s h
  unfold readUpTo
  dsimp only
  rw [htake, hdrop]
  split <;> rfl

theorem isLocal_readOctet (h : Stops isDigit rest) : IsLocal readOctet rest := by
  intro s
  unfold readOctet
  dsimp only
  rw [(Text.takeWhile_append s h).1, isLocal_readUpTo 255 h s]
  split
  · rfl
  · cases readUpTo 255 s <;> rfl

/-- An address is not looked for beyond what is neither a digit nor a point. -/
theorem isLocal_readIp4 (h : Stops isDigit rest) (hpoint : rest.head? ≠ some '.') :
    IsLocal readIp4 rest := by
  have hoctet := isLocal_readOctet h
  have hexpect := isLocal_expect hpoint
  intro s
  unfold readIp4
  refine hoctet.bind (fun a s => ?_) s
  refine hexpect.bind (fun _ s => ?_) s
  refine hoctet.bind (fun b s => ?_) s
  refine hexpect.bind (fun _ s => ?_) s
  refine hoctet.bind (fun c s => ?_) s
  refine hexpect.bind (fun _ s => ?_) s
  refine hoctet.bind (fun d s => ?_) s
  rfl

/-! ## What is used up -/

/-- What is left is the end of the text, and so many colons fewer are in it. -/
def Spends (k : Nat) (s rest : List Char) : Prop :=
  rest <:+ s ∧ rest.count ':' + k ≤ s.count ':'

theorem Spends.of_suffix (h : rest <:+ s) : Spends 0 s rest := ⟨h, h.sublist.count_le ':'⟩

theorem Spends.trans {j k : Nat} {t : List Char} (h : Spends j s t) (h' : Spends k t rest) :
    Spends (j + k) s rest := by
  obtain ⟨hsuffix, hcount⟩ := h
  obtain ⟨hsuffix', hcount'⟩ := h'
  exact ⟨hsuffix'.trans hsuffix, by omega⟩

theorem eq_cons_of_expect {u : Unit} (h : expect c s = some (u, rest)) : s = c :: rest := by
  cases s with
  | nil => exact absurd h (by simp [expect])
  | cons d s =>
      by_cases hd : d = c
      · subst hd
        rw [expect_cons] at h
        injection h with h
        injection h with _ h
        rw [h]
      · rw [expect_of_ne hd] at h
        exact absurd h (by simp)

theorem suffix_of_expect {u : Unit} (h : expect c s = some (u, rest)) : rest <:+ s :=
  eq_cons_of_expect h ▸ List.suffix_cons c rest

theorem spends_colon {u : Unit} (h : expect ':' s = some (u, rest)) : Spends 1 s rest := by
  refine ⟨suffix_of_expect h, ?_⟩
  rw [eq_cons_of_expect h, List.count_cons_self]

theorem readUpTo_rest (h : readUpTo bound s = some (n, rest)) : rest = s.dropWhile isDigit := by
  unfold readUpTo at h
  dsimp only at h
  split at h
  · exact absurd h (by simp)
  · injection h with h
    injection h with _ h
    exact h.symm

theorem readOctet_rest {a : UInt8} (h : readOctet s = some (a, rest)) :
    rest = s.dropWhile isDigit := by
  unfold readOctet at h
  dsimp only at h
  split at h
  · exact absurd h (by simp)
  · obtain ⟨⟨n, left⟩, hread, hfound⟩ := Option.map_eq_some_iff.mp h
    injection hfound with _ hfound
    exact hfound ▸ readUpTo_rest hread

theorem suffix_of_readOctet {a : UInt8} (h : readOctet s = some (a, rest)) : rest <:+ s :=
  readOctet_rest h ▸ List.dropWhile_suffix isDigit

theorem suffix_of_readIp4 {x : Ip4} (h : readIp4 s = some (x, rest)) : rest <:+ s := by
  unfold readIp4 at h
  obtain ⟨⟨a, s1⟩, h1, h⟩ := Option.bind_eq_some_iff.mp h
  obtain ⟨⟨_, s2⟩, h2, h⟩ := Option.bind_eq_some_iff.mp h
  obtain ⟨⟨b, s3⟩, h3, h⟩ := Option.bind_eq_some_iff.mp h
  obtain ⟨⟨_, s4⟩, h4, h⟩ := Option.bind_eq_some_iff.mp h
  obtain ⟨⟨c, s5⟩, h5, h⟩ := Option.bind_eq_some_iff.mp h
  obtain ⟨⟨_, s6⟩, h6, h⟩ := Option.bind_eq_some_iff.mp h
  obtain ⟨⟨d, s7⟩, h7, h⟩ := Option.bind_eq_some_iff.mp h
  injection h with h
  injection h with _ h
  subst h
  exact (suffix_of_readOctet h7).trans <| (suffix_of_expect h6).trans <|
    (suffix_of_readOctet h5).trans <| (suffix_of_expect h4).trans <|
    (suffix_of_readOctet h3).trans <| (suffix_of_expect h2).trans (suffix_of_readOctet h1)

/-! ## Ports -/

theorem readPort_digits (hne : ds ≠ []) (hds : ∀ c ∈ ds, isDigit c = true)
    (hbound : digitsValue ds ≤ 65535) :
    readPort (':' :: ds) = some (UInt16.ofNat (digitsValue ds), []) := by
  have hread := readUpTo_digits hne hds hbound stops_nil
  rw [List.append_nil] at hread
  unfold readPort
  rw [expect_cons]
  simp only [Option.bind_eq_bind, Option.bind_some]
  rw [hread]
  rfl

theorem readPort_toDigits (p : UInt16) :
    readPort (':' :: Nat.toDigits 10 p.toNat) = some (p, []) := by
  have hvalue := digitsValue_toDigits p.toNat
  have hread := readPort_digits Nat.toDigits_ne_nil (fun c hc => isDigit_of_mem_toDigits hc)
    (hvalue.trans_le (Nat.le_of_lt_succ p.toNat_lt))
  rwa [hvalue, UInt16.ofNat_toNat] at hread

end Ip

namespace Inet4

theorem toList_text (x : Inet4) :
    x.text.toList = x.ip.text.toList ++ ':' :: Nat.toDigits 10 x.port.toNat := by
  have hcolon : (toString ":").toList = [':'] := rfl
  unfold text
  simp only [String.toList_append, toList_toString, hcolon, List.append_assoc, List.cons_append,
    List.nil_append]
  rfl

/-- **What is written of an address and a port is read as both.** -/
theorem read?_text (x : Inet4) : read? x.text.toList = some x := by
  rw [x.toList_text]
  unfold read?
  rw [Ip.readIp4_text x.ip (Ip.stops_cons (by decide))]
  simp only [Option.bind_eq_bind, Option.bind_some]
  rw [Ip.readPort_toDigits]
  rfl

/-- In front of a port, a name is an address exactly if it is one by itself. -/
theorem read?_named {name port : List Char} {p : UInt16} (hname : ':' ∉ name)
    (hport : Ip.readPort (':' :: port) = some (p, [])) :
    read? (name ++ ':' :: port) = match Ip.readIp4 name with
      | some (ip, []) => some ⟨ip, p⟩
      | _ => none := by
  have hlocal : Ip.IsLocal Ip.readIp4 (':' :: port) :=
    Ip.isLocal_readIp4 (Ip.stops_cons (by decide)) (by simp)
  unfold read?
  rw [hlocal name]
  cases hread : Ip.readIp4 name with
  | none => rfl
  | some found =>
      obtain ⟨ip, rest⟩ := found
      simp only [Option.map_some, Option.bind_eq_bind, Option.bind_some]
      cases rest with
      | nil => rw [List.nil_append, hport]; rfl
      | cons c rest =>
          -- what is left of the name has no colon in it
          have hc : c ≠ ':' := fun he =>
            hname ((Ip.suffix_of_readIp4 hread).subset (he ▸ List.mem_cons_self))
          unfold Ip.readPort
          rw [List.cons_append, Ip.expect_of_ne hc]
          rfl

end Inet4

end PacedNet
