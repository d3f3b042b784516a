import PacedNet.Address.Endpoint
import PacedNet.Proofs.Address.Grouped
import PacedNet.Proofs.Text.Cutting
import PacedNet.Proofs.Text.Encoding

/-!
# An endpoint's text is that endpoint

An endpoint that was read has a text of its own, which need not be the one that it was read from: a
number loses its zeros, an address its long form, a path gets a mark. The forms of a text are tried
one after the other, so that the text of one might be taken for another before its turn comes. It is
not: local addresses bear their mark, the text of an internet address is read as such
(`parse_text_inet4`, `parse_text_inet6`), and in the text of a name and a port there is one colon, too
few for an address of version 6 (`parse_text_host`).

Only a name that is an address of version 4 by itself is read as that address. Such a name comes of a
text with a plus sign in front of the port, which a name's port may have and an address's may not
(`parse_text`).
-/

namespace PacedNet.Endpoint

variable {s name port : List Char} {e : Endpoint} {t : String}

/-! ## Ports -/

theorem readNat?_toDigits (n : Nat) : readNat? (Nat.toDigits 10 n) = some n := by
  obtain ⟨c, rest, hdigits⟩ := List.exists_cons_of_ne_nil (Nat.toDigits_ne_nil (n := n) (b := 10))
  have hall : (Nat.toDigits 10 n).all isDigit = true :=
    List.all_eq_true.mpr fun c hc => isDigit_of_mem_toDigits hc
  have hvalue := digitsValue_toDigits n
  rw [hdigits] at hall hvalue ⊢
  have hc : isDigit c = true := (List.all_eq_true.mp hall) c List.mem_cons_self
  have hplus : c ≠ '+' := fun he => absurd (he ▸ hc) (by decide)
  have hminus : c ≠ '-' := fun he => absurd (he ▸ hc) (by decide)
  unfold readNat? readInt?
  split
  · rename_i heq
    exact absurd (List.cons.inj heq).1 hminus
  · dsimp only
    split
    · rename_i heq
      exact absurd (List.cons.inj heq).1 hplus
    · rename_i heq
      exact absurd (List.cons.inj heq).1 hminus
    · rw [if_pos (by simpa using hall), hvalue]
      rfl

/-- A number without a minus sign is digits, or digits behind a plus sign. -/
theorem readNat?_eq_some {p : List Char} {n : Nat} (h : readNat? p = some n) :
    ∃ ds, (p = ds ∨ p = '+' :: ds) ∧ ds ≠ [] ∧ (∀ c ∈ ds, isDigit c = true)
      ∧ digitsValue ds = n := by
  have hmagnitude (ds : List Char)
      (hds : ((if !ds.isEmpty && ds.all isDigit then some (digitsValue ds) else none).map
        Int.ofNat).map Int.toNat = some n) :
      ds ≠ [] ∧ (∀ c ∈ ds, isDigit c = true) ∧ digitsValue ds = n := by
    by_cases hgood : (!ds.isEmpty && ds.all isDigit) = true
    · rw [if_pos hgood] at hds
      rw [Bool.and_eq_true] at hgood
      exact ⟨by simpa using hgood.1, List.all_eq_true.mp hgood.2, by simpa using hds⟩
    · rw [if_neg hgood] at hds
      exact absurd hds (by simp)
  unfold readNat? readInt? at h
  split at h
  · exact absurd h (by simp)
  · dsimp only at h
    split at h
    · exact ⟨_, .inr rfl, hmagnitude _ h⟩
    · rename_i hminus
      exact absurd rfl (hminus _)
    · exact ⟨_, .inl rfl, hmagnitude _ h⟩

/-! ## Names in front of a port -/

/-- A text is cut at its last colon. -/
theorem readHost?_append (hport : ':' ∉ port) : readHost? (name ++ ':' :: port)
    = if name.isEmpty || name.contains ':' then none
      else (readNat? port).bind fun n =>
        if n < 65536 then some (host (String.ofList name) (UInt16.ofNat n)) else none := by
  have hdiffers : ∀ c ∈ port.reverse, decide (c ≠ ':') = true := fun c hc =>
    decide_eq_true fun he => hport (List.mem_reverse.mp (he ▸ hc))
  have hcut : ((name ++ ':' :: port).reverse.takeWhile (· ≠ ':')).reverse = port := by
    rw [List.reverse_append, List.reverse_cons, List.append_assoc,
      List.takeWhile_append_of_pos hdiffers]
    simp
  have hname : (name ++ ':' :: port).take ((name ++ ':' :: port).length - port.length - 1)
      = name := by
    have hlength : (name ++ ':' :: port).length - port.length - 1 = name.length := by
      rw [List.length_append, List.length_cons]
      omega
    rw [hlength, List.take_left]
  have hcolon : (name ++ ':' :: port).contains ':' = true := by simp
  unfold readHost?
  dsimp only
  rw [hcut, hname, hcolon]
  rfl

theorem readHost?_eq_some (h : readHost? s = some e) : ∃ name port n, s = name ++ ':' :: port
    ∧ ':' ∉ port ∧ name ≠ [] ∧ ':' ∉ name ∧ readNat? port = some n ∧ n < 65536
    ∧ e = host (String.ofList name) (UInt16.ofNat n) := by
  by_cases hcolon : ':' ∈ s
  · obtain ⟨port, name, hs, hport⟩ := List.eq_append_cons_of_mem (List.mem_reverse.mpr hcolon)
    have hs : s = name.reverse ++ ':' :: port.reverse := by
      rw [← List.reverse_reverse s, hs]
      simp
    have hport : ':' ∉ port.reverse := by simpa using hport
    rw [hs, readHost?_append hport] at h
    by_cases hbad : (name.reverse.isEmpty || name.reverse.contains ':') = true
    · rw [if_pos hbad] at h
      exact absurd h (by simp)
    · rw [if_neg hbad] at h
      obtain ⟨n, hn, h⟩ := Option.bind_eq_some_iff.mp h
      by_cases hlt : n < 65536
      · rw [if_pos hlt] at h
        injection h with h
        refine ⟨name.reverse, port.reverse, n, hs, hport, ?_, ?_, hn, hlt, h.symm⟩
        · intro hnil
          exact hbad (by rw [hnil]; rfl)
        · intro hmem
          exact hbad (by rw [List.contains_iff_mem.mpr hmem, Bool.or_true])
      · rw [if_neg hlt] at h
        exact absurd h (by simp)
  · unfold readHost? at h
    have hcontains : s.contains ':' = false := by simpa using hcolon
    rw [hcontains] at h
    exact absurd h (by simp)

/-! ## Text without blanks around it -/

/-- What a text is read as once it is trimmed. -/
def parseChars (s : List Char) : Except SocketError Endpoint :=
  match "unix:".toList.isPrefixOf? s with
  | some ('@' :: name) =>
    checkedUnix (String.ofList s) (.abstract (Text.encode (String.ofList name)))
  | some rest => checkedUnix (String.ofList s) (.path (Text.encode (String.ofList rest)))
  | none =>
    if s.head? = some '/' then checkedUnix (String.ofList s) (.path (Text.encode (String.ofList s)))
    else match Inet4.read? s, Inet6.read? s with
      | some a, _ => .ok (inet4 a)
      | none, some a => .ok (inet6 a)
      | none, none =>
        match readHost? s with
        | some e => .ok e
        | none => .error (addressError (String.ofList s) (.unresolved "expected host:port"))

theorem parse_eq (t : String) : parse t = parseChars (Text.trim t.toList) := rfl

theorem parse_of_trimmed (h : Text.Trimmed t.toList) : parse t = parseChars t.toList := by
  rw [parse_eq, Text.trim_of_trimmed h]

theorem toList_mark : "unix:".toList = ['u', 'n', 'i', 'x', ':'] := rfl

theorem parseChars_abstract (name : List Char) : parseChars ("unix:".toList ++ '@' :: name)
    = checkedUnix (String.ofList ("unix:".toList ++ '@' :: name))
      (.abstract (Text.encode (String.ofList name))) := by
  unfold parseChars
  rw [List.isPrefixOf?_eq_some_iff_append_eq.mpr rfl]
  rfl

theorem parseChars_path {rest : List Char} (h : rest.head? ≠ some '@') :
    parseChars ("unix:".toList ++ rest) = checkedUnix (String.ofList ("unix:".toList ++ rest))
      (.path (Text.encode (String.ofList rest))) := by
  unfold parseChars
  rw [List.isPrefixOf?_eq_some_iff_append_eq.mpr rfl]
  split
  · rename_i name hname
    injection hname with hname
    exact absurd (by rw [hname]; rfl) h
  · rename_i hrest
    injection hrest with hrest
    rw [hrest]
  · rename_i hnone
    exact absurd hnone (by simp)

theorem isPrefixOf?_eq_none (h : ¬ "unix:".toList <+: s) : "unix:".toList.isPrefixOf? s = none := by
  cases hprefix : "unix:".toList.isPrefixOf? s with
  | none => rfl
  | some rest => exact absurd ⟨rest, List.isPrefixOf?_eq_some_iff_append_eq.mp hprefix⟩ h

theorem checkedUnix_eq_ok {a : UnixAddress} {text : String} :
    checkedUnix text a = .ok e ↔ a.raw?.isSome = true ∧ e = unix a := by
  unfold checkedUnix
  by_cases ha : a.raw?.isSome = true
  · rw [if_pos ha]
    constructor
    · intro h
      injection h with h
      exact ⟨ha, h.symm⟩
    · rintro ⟨-, rfl⟩
      rfl
  · rw [if_neg ha]
    simp [ha]

/-! ## Local addresses -/

theorem toList_decoded (s : List Char) :
    (Text.decodeLossy (Text.encode (String.ofList s))).toList = s := by
  rw [Text.decodeLossy_encode, String.toList_ofList]

theorem toList_text_path (rest : List Char) :
    (unix (.path (Text.encode (String.ofList rest)))).text.toList = "unix:".toList ++ rest := by
  show ("unix:" ++ Text.decodeLossy _).toList = _
  rw [String.toList_append, toList_decoded]

theorem toList_text_abstract (name : List Char) :
    (unix (.abstract (Text.encode (String.ofList name)))).text.toList
      = "unix:".toList ++ '@' :: name := by
  show ("unix:@" ++ Text.decodeLossy _).toList = _
  rw [String.toList_append, toList_decoded]
  rfl

/-- A path is read from its text, whatever it was read from. -/
theorem parse_text_path {rest : List Char} (h : rest.head? ≠ some '@')
    (hlast : ∀ c, rest.getLast? = some c → Text.isBlank c = false)
    (hraw : (UnixAddress.path (Text.encode (String.ofList rest))).raw?.isSome = true) :
    parse (unix (.path (Text.encode (String.ofList rest)))).text
      = .ok (unix (.path (Text.encode (String.ofList rest)))) := by
  have hchars := toList_text_path rest
  have htrimmed : Text.Trimmed ("unix:".toList ++ rest) := by
    rw [toList_mark]
    refine ⟨fun c hc => ?_, fun c hc => ?_⟩
    · injection hc with hc
      subst hc
      decide
    · by_cases hnil : rest = []
      · rw [hnil] at hc
        injection hc with hc
        subst hc
        decide
      · rw [List.getLast?_append_of_ne_nil _ hnil] at hc
        exact hlast c hc
  rw [parse_of_trimmed (hchars ▸ htrimmed), hchars, parseChars_path h]
  exact checkedUnix_eq_ok.mpr ⟨hraw, rfl⟩

/-! ## Internet addresses -/

/-- What ends in a number has no blank at its end. -/
theorem trimmed_append_toDigits {front : List Char} {n : Nat}
    (h : ∀ c, (front ++ Nat.toDigits 10 n).head? = some c → Text.isBlank c = false) :
    Text.Trimmed (front ++ Nat.toDigits 10 n) := by
  refine ⟨h, fun c hc => ?_⟩
  rw [List.getLast?_append_of_ne_nil _ Nat.toDigits_ne_nil] at hc
  exact isBlank_of_isDigit (isDigit_of_mem_toDigits (List.mem_of_getLast? hc))

/-- A text without the marks of a local address is tried as an internet address. -/
theorem parseChars_other (h : ¬ "unix:".toList <+: s) (hslash : s.head? ≠ some '/') :
    parseChars s = match Inet4.read? s, Inet6.read? s with
      | some a, _ => .ok (inet4 a)
      | none, some a => .ok (inet6 a)
      | none, none =>
        match readHost? s with
        | some e => .ok e
        | none => .error (addressError (String.ofList s) (.unresolved "expected host:port")) := by
  unfold parseChars
  rw [isPrefixOf?_eq_none h]
  dsimp only
  rw [if_neg hslash]

theorem not_prefix_of_head {c : Char} (hc : s.head? = some c) (hu : c ≠ 'u') :
    ¬ "unix:".toList <+: s := by
  rintro ⟨rest, rfl⟩
  rw [toList_mark] at hc
  injection hc with hc
  exact hu hc.symm

theorem parse_text_inet4 (x : Inet4) : parse (inet4 x).text = .ok (inet4 x) := by
  have hchars : (inet4 x).text.toList
      = (x.ip.text.toList ++ [':']) ++ Nat.toDigits 10 x.port.toNat := by
    rw [List.append_assoc]
    exact x.toList_text
  obtain ⟨c, rest, hdigits⟩ :=
    List.exists_cons_of_ne_nil (Nat.toDigits_ne_nil (n := x.ip.a.toNat) (b := 10))
  have hc : isDigit c = true :=
    isDigit_of_mem_toDigits (n := x.ip.a.toNat) (hdigits ▸ List.mem_cons_self)
  have hhead : (inet4 x).text.toList.head? = some c := by
    rw [hchars, x.ip.toList_text, hdigits]
    rfl
  have hother : ∀ d, isDigit d = false → c ≠ d := fun d hd he => by
    rw [he, hd] at hc
    exact absurd hc (by decide)
  have htrimmed : Text.Trimmed (inet4 x).text.toList := by
    rw [hchars] at hhead ⊢
    refine trimmed_append_toDigits fun d hd => ?_
    rw [hhead, Option.some.injEq] at hd
    exact hd ▸ isBlank_of_isDigit hc
  rw [parse_of_trimmed htrimmed, parseChars_other
    (not_prefix_of_head hhead (hother _ (by decide)))
    (by rw [hhead]; exact fun he => hother '/' (by decide) (Option.some.inj he))]
  have hread : Inet4.read? (inet4 x).text.toList = some x := x.read?_text
  rw [hread]

theorem parse_text_inet6 (x : Inet6) : parse (inet6 x).text = .ok (inet6 x) := by
  have hchars : (inet6 x).text.toList = '[' :: (x.ip.text.toList
      ++ (Inet6.scopeChars x.scope ++ ']' :: ':' :: Nat.toDigits 10 x.port.toNat)) := x.toList_text
  have hhead : (inet6 x).text.toList.head? = some '[' := by
    rw [hchars]
    rfl
  have htrimmed : Text.Trimmed (inet6 x).text.toList := by
    have hfront : (inet6 x).text.toList = ('[' :: (x.ip.text.toList
        ++ (Inet6.scopeChars x.scope ++ [']', ':']))) ++ Nat.toDigits 10 x.port.toNat := by
      rw [hchars]
      simp
    rw [hfront]
    refine trimmed_append_toDigits fun d hd => ?_
    injection hd with hd
    subst hd
    decide
  have hnot4 : Inet4.read? (inet6 x).text.toList = none := by
    rw [hchars]
    unfold Inet4.read?
    rw [Ip.readIp4_of_stops (Ip.stops_cons (by decide))]
    rfl
  rw [parse_of_trimmed htrimmed, parseChars_other (not_prefix_of_head hhead (by decide))
    (by rw [hhead]; decide), hnot4]
  have hread : Inet6.read? (inet6 x).text.toList = some x := x.read?_text
  rw [hread]

/-! ## Names -/

theorem prefix_iff (hname : ':' ∉ name) :
    "unix:".toList <+: name ++ ':' :: s ↔ name = "unix".toList := by
  have hcut (front back : List Char) (h : ':' ∉ front) :
      (front ++ ':' :: back).takeWhile (· ≠ ':') = front := by
    refine (Text.takeWhile_run (fun c hc => ?_) (Ip.stops_cons (by decide))).1
    exact decide_eq_true fun he => h (he ▸ hc)
  constructor
  · -- both are what stands in front of the first colon
    rintro ⟨back, hback⟩
    have hsame : "unix".toList ++ ':' :: back = name ++ ':' :: s := hback
    rw [← hcut name s hname, ← hsame, hcut _ _ (by decide)]
  · rintro rfl
    exact ⟨s, rfl⟩

/-- **A name in front of a port is read as both**, or as an address if the name is one. -/
theorem parse_text_host (p : UInt16) (hne : name ≠ []) (hcolon : ':' ∉ name)
    (hblank : ∀ c, name.head? = some c → Text.isBlank c = false) (hunix : name ≠ "unix".toList)
    (hslash : name.head? ≠ some '/') :
    parse (host (String.ofList name) p).text = match Ip.readIp4 name with
      | some (ip, []) => .ok (inet4 ⟨ip, p⟩)
      | _ => .ok (host (String.ofList name) p) := by
  have hchars : (host (String.ofList name) p).text.toList
      = name ++ ':' :: Nat.toDigits 10 p.toNat := by
    have hsign : (toString ":").toList = [':'] := rfl
    show (toString (String.ofList name) ++ toString ":" ++ toString p.toNat).toList = _
    rw [String.toList_append, String.toList_append, hsign, toList_toString, List.append_assoc]
    exact congrArg (· ++ _) String.toList_ofList
  have hhead : (name ++ ':' :: Nat.toDigits 10 p.toNat).head? = name.head? :=
    List.head?_append_of_ne_nil name hne
  have hdigits : ':' ∉ Nat.toDigits 10 p.toNat := fun hmem =>
    absurd (isDigit_of_mem_toDigits hmem) (by decide)
  have htrimmed : Text.Trimmed (name ++ ':' :: Nat.toDigits 10 p.toNat) := by
    have hfront : name ++ ':' :: Nat.toDigits 10 p.toNat
        = (name ++ [':']) ++ Nat.toDigits 10 p.toNat := by simp
    rw [hfront] at hhead ⊢
    exact trimmed_append_toDigits fun c hc => hblank c (hhead ▸ hc)
  have hnot6 : Inet6.read? (name ++ ':' :: Nat.toDigits 10 p.toNat) = none := by
    cases hread : Inet6.read? (name ++ ':' :: Nat.toDigits 10 p.toNat) with
    | none => rfl
    | some x =>
        -- there is one colon, and an address of version 6 takes two
        have htwo := Inet6.two_le_count_of_read? hread
        rw [List.count_append, List.count_cons_self, List.count_eq_zero.mpr hcolon,
          List.count_eq_zero.mpr hdigits] at htwo
        exact absurd htwo (by decide)
  have hhost : readHost? (name ++ ':' :: Nat.toDigits 10 p.toNat)
      = some (host (String.ofList name) p) := by
    have hgood : ¬ (name.isEmpty || name.contains ':') = true := by
      simpa [hne] using hcolon
    rw [readHost?_append hdigits, if_neg hgood, readNat?_toDigits, Option.bind_some,
      if_pos p.toNat_lt, UInt16.ofNat_toNat]
  rw [parse_of_trimmed (hchars ▸ htrimmed), hchars,
    parseChars_other (fun hpre => hunix ((prefix_iff hcolon).mp hpre)) (hhead ▸ hslash), hnot6,
    hhost, Inet4.read?_named hcolon (Ip.readPort_toDigits p)]
  cases hread : Ip.readIp4 name with
  | none => rfl
  | some found =>
      obtain ⟨ip, left⟩ := found
      cases left <;> rfl

/-! ## All forms -/

/-- How a text comes to be read as an endpoint. -/
inductive Parsed (s : List Char) : Endpoint → Prop where
  | abstract {rest : List Char} : s = "unix:".toList ++ '@' :: rest →
      (UnixAddress.abstract (Text.encode (String.ofList rest))).raw?.isSome = true →
      Parsed s (unix (.abstract (Text.encode (String.ofList rest))))
  | path {rest : List Char} : s = "unix:".toList ++ rest ∨ s = rest → rest.head? ≠ some '@' →
      (UnixAddress.path (Text.encode (String.ofList rest))).raw?.isSome = true →
      Parsed s (unix (.path (Text.encode (String.ofList rest))))
  | inet4 (a : Inet4) : Parsed s (inet4 a)
  | inet6 (a : Inet6) : Parsed s (inet6 a)
  | host {e : Endpoint} : ¬ "unix:".toList <+: s → s.head? ≠ some '/' → Inet4.read? s = none →
      readHost? s = some e → Parsed s e

theorem parsed_of_parseChars (h : parseChars s = .ok e) : Parsed s e := by
  by_cases hprefix : "unix:".toList <+: s
  · obtain ⟨rest, rfl⟩ := hprefix
    by_cases hat : rest.head? = some '@'
    · obtain ⟨name, rfl⟩ := List.head?_eq_some_iff.mp hat
      rw [parseChars_abstract] at h
      obtain ⟨hraw, rfl⟩ := checkedUnix_eq_ok.mp h
      exact .abstract rfl hraw
    · rw [parseChars_path hat] at h
      obtain ⟨hraw, rfl⟩ := checkedUnix_eq_ok.mp h
      exact .path (.inl rfl) hat hraw
  · by_cases hslash : s.head? = some '/'
    · unfold parseChars at h
      rw [isPrefixOf?_eq_none hprefix] at h
      dsimp only at h
      rw [if_pos hslash] at h
      obtain ⟨hraw, rfl⟩ := checkedUnix_eq_ok.mp h
      exact .path (.inr rfl) (by rw [hslash]; decide) hraw
    · rw [parseChars_other hprefix hslash] at h
      cases h4 : Inet4.read? s with
      | some a =>
          rw [h4] at h
          injection h with h
          exact h ▸ .inet4 a
      | none =>
          cases h6 : Inet6.read? s with
          | some a =>
              rw [h4, h6] at h
              injection h with h
              exact h ▸ .inet6 a
          | none =>
              rw [h4, h6] at h
              cases hhost : readHost? s with
              | none => rw [hhost] at h; exact absurd h (by simp)
              | some found =>
                  rw [hhost] at h
                  injection h with h
                  exact .host hprefix hslash h4 (h ▸ hhost)

/-- **The text of an endpoint that was read is read as that endpoint**, but for a name that is an
address by itself: it was taken for a name because of a plus sign at its port, which its text does
not have. -/
theorem parse_text (h : parse t = .ok e) :
    parse e.text = .ok e
      ∨ ∃ name p digits ip, e = host name p
        ∧ Text.trim t.toList = name.toList ++ ':' :: '+' :: digits
        ∧ Ip.readIp4 name.toList = some (ip, []) ∧ parse e.text = .ok (inet4 ⟨ip, p⟩) := by
  rw [parse_eq] at h
  have htrimmed := Text.trimmed_trim t.toList
  generalize Text.trim t.toList = s at h htrimmed
  cases parsed_of_parseChars h with
  | @abstract rest hs hraw =>
      have hchars := toList_text_abstract rest
      rw [← hs] at hchars
      rw [parse_of_trimmed (hchars ▸ htrimmed), hchars]
      exact .inl h
  | @path rest hs hat hraw =>
      refine .inl (parse_text_path hat (fun c hc => htrimmed.last c ?_) hraw)
      rcases hs with rfl | rfl
      · rw [List.getLast?_append, hc]
        rfl
      · exact hc
  | inet4 a => exact .inl (parse_text_inet4 a)
  | inet6 a => exact .inl (parse_text_inet6 a)
  | host hprefix hslash h4 hhost =>
      obtain ⟨name, port, n, rfl, hport, hne, hcolon, hn, hlt, rfl⟩ := readHost?_eq_some hhost
      have hhead : (name ++ ':' :: port).head? = name.head? :=
        List.head?_append_of_ne_nil name hne
      have hread := parse_text_host (UInt16.ofNat n) hne hcolon
        (fun c hc => htrimmed.head c (hhead ▸ hc))
        (fun hunix => hprefix ((prefix_iff hcolon).mpr hunix)) (hhead ▸ hslash)
      rw [hread]
      cases hip : Ip.readIp4 name with
      | none => exact .inl rfl
      | some found =>
          obtain ⟨ip, left⟩ := found
          cases left with
          | cons c left => exact .inl rfl
          | nil =>
              -- with digits only at its port, it would have been read as an address at once
              obtain ⟨ds, hds, hnil, hdigits, hvalue⟩ := readNat?_eq_some hn
              rcases hds with rfl | rfl
              · have hreads := Ip.readPort_digits hnil hdigits (by omega)
                rw [Inet4.read?_named hcolon hreads, hip] at h4
                exact absurd h4 (by simp)
              · exact .inr ⟨_, _, ds, ip, rfl, by rw [String.toList_ofList],
                  by rw [String.toList_ofList, hip], rfl⟩

/-- An address in a long form, with a zone and zeros in front of its port. -/
theorem parse_text_zoned : ∃ e, parse " [FE80:0::0:1%7]:080" = .ok e ∧ e.text = "[fe80::1%7]:80"
    ∧ (parse e.text = .ok e
      ∨ ∃ name p digits ip, e = host name p
        ∧ Text.trim " [FE80:0::0:1%7]:080".toList = name.toList ++ ':' :: '+' :: digits
        ∧ Ip.readIp4 name.toList = some (ip, []) ∧ parse e.text = .ok (inet4 ⟨ip, p⟩)) := by
  have hread : parse " [FE80:0::0:1%7]:080"
      = .ok (inet6 ⟨⟨[0xFE80, 0, 0, 0, 0, 0, 0, 1], rfl⟩, 80, 7⟩) := by decide +kernel
  exact ⟨_, hread, by decide +kernel, parse_text hread⟩

/-- A plus sign at the port makes a name of an address, and its text is an address again. -/
theorem parse_text_signed : parse "127.0.0.1:+80" = .ok (host "127.0.0.1" 80)
    ∧ parse (host "127.0.0.1" 80).text = .ok (inet4 ⟨.loopback, 80⟩)
    ∧ ¬ ∀ t e, parse t = .ok e → parse e.text = .ok e := by
  have hread : parse "127.0.0.1:+80" = .ok (host "127.0.0.1" 80) := by decide +kernel
  have hagain : parse (host "127.0.0.1" 80).text = .ok (inet4 ⟨.loopback, 80⟩) := by decide +kernel
  refine ⟨hread, hagain, fun hall => ?_⟩
  have hsame := hall _ _ hread
  rw [hagain] at hsame
  exact absurd hsame (by decide)

end PacedNet.Endpoint
