import PacedNet.Proofs.Config.Finding
import PacedNet.Proofs.Config.Including
import PacedNet.Proofs.Size.Spelling
import PacedNet.Socket.Options

/-!
# Settings of a section

Settings are read from a section one key after another. Nine things may be wrong with a section
(`Wrong`), and reading it fails exactly if one of them is, with the error of the first
(`ofNode_first_wrong`). The other keys are read leniently: what does not read is what is not there.
If nothing is wrong, the settings are those that the keys prescribe (`prescribed`), and of the
section nothing else is looked at than its path and the twelve keys (`settingKeys`).

A step of the reading makes some of the checks (`Decides`): it fails with the error of the first of
them, and where it does not, none of them fails. Steps one behind another make their checks in
that order, and so the whole makes all nine in theirs.
-/

namespace PacedNet.SocketConfig

open Config (Node OfEntry)

/-- What may be wrong with a section. -/
inductive Check where
  | bind
  | connect
  | family
  | kind
  | receiveBuffer
  | sendBuffer
  | readChunk
  | bandwidth
  | quota
deriving DecidableEq

/-- All checks, in their order. -/
def checks : List Check :=
  [.bind, .connect, .family, .kind, .receiveBuffer, .sendBuffer, .readChunk, .bandwidth, .quota]

/-- The keys that settings are read from. -/
def settingKeys : List String :=
  ["bind", "connect", "family", "type", "backlog", "reuse address", "acknowledge",
   "receive buffer", "send buffer", "read chunk", "bandwidth", "quota"]

/-- The endpoint of a key does not parse. -/
inductive WrongEndpoint (n : Node) (key : String) : SetupError → Prop where
  | unreadable {text : String} {e : SocketError} (hvalue : n.value? key = some text)
      (h : Endpoint.parse text = .error e) : WrongEndpoint n key (.socket e)

/-- The size of a key does not parse. -/
inductive WrongSize (n : Node) (key : String) : SetupError → Prop where
  | unreadable {text : String} {e : SizeError} (hvalue : n.value? key = some text)
      (h : ByteSize.parse text = .error e) :
      WrongSize n key (badValue n key text "a byte quantity")

/-- The size of a key does not parse, or is less than none. -/
inductive WrongCount (n : Node) (key : String) : SetupError → Prop where
  | size {e : SetupError} (h : WrongSize n key e) : WrongCount n key e
  | negative {text : String} {size : ByteSize} (hvalue : n.value? key = some text)
      (h : ByteSize.parse text = .ok size) (hneg : size.bytes < 0) :
      WrongCount n key (badValue n key size.display "a non-negative byte quantity")

/-- What a check finds wrong with a section. -/
inductive Wrong (n : Node) (now : Instant) : Check → SetupError → Prop where
  | bind {e : SetupError} (h : WrongEndpoint n "bind" e) : Wrong n now .bind e
  | connect {e : SetupError} (h : WrongEndpoint n "connect" e) : Wrong n now .connect e
  | unknownFamily {name : String} (hvalue : n.value? "family" = some name)
      (h : Family.ofName? name = none) :
      Wrong n now .family (badValue n "family" name "unix, ipv4 or ipv6")
  | noFamily (hfamily : n.value? "family" = none) (hbind : n.value? "bind" = none)
      (hconnect : n.value? "connect" = none) :
      Wrong n now .family (.config (.missing n.path "family"))
  | unknownKind {name : String} (hvalue : n.value? "type" = some name)
      (h : Kind.ofName? name = none) :
      Wrong n now .kind (badValue n "type" name "stream or datagram")
  | receiveBuffer {e : SetupError} (h : WrongCount n "receive buffer" e) :
      Wrong n now .receiveBuffer e
  | sendBuffer {e : SetupError} (h : WrongCount n "send buffer" e) : Wrong n now .sendBuffer e
  | readChunk {e : SetupError} (h : WrongCount n "read chunk" e) : Wrong n now .readChunk e
  | bandwidth {e : SetupError} (h : WrongSize n "bandwidth" e) : Wrong n now .bandwidth e
  | quota {bandwidth text : String} {capacity : ByteSize} {e : QuotaError}
      (hbandwidth : n.value? "bandwidth" = some bandwidth)
      (hcapacity : ByteSize.parse bandwidth = .ok capacity) (hvalue : n.value? "quota" = some text)
      (h : Quota.parse now capacity text = .error e) :
      Wrong n now .quota (.config (.badQuota n.path "quota" e))

/-- A check finds nothing wrong. -/
def Fine (n : Node) (now : Instant) (k : Check) : Prop := ∀ e, ¬ Wrong n now k e

/-- What the first of some checks that fails finds wrong. -/
inductive FirstWrong (n : Node) (now : Instant) : List Check → SetupError → Prop where
  | here {k : Check} {ks : List Check} {e : SetupError} (h : Wrong n now k e) :
      FirstWrong n now (k :: ks) e
  | there {k : Check} {ks : List Check} {e : SetupError} (hfine : Fine n now k)
      (h : FirstWrong n now ks e) : FirstWrong n now (k :: ks) e

/-! ## What the keys prescribe -/

/-- The endpoint of a key. -/
def endpoint? (n : Node) (key : String) : Option Endpoint :=
  (n.value? key).bind fun text => (Endpoint.parse text).toOption

/-- The size of a key. -/
def size? (n : Node) (key : String) : Option ByteSize :=
  (n.value? key).bind fun text => (ByteSize.parse text).toOption

/-- The number of bytes of a key. -/
def count? (n : Node) (key : String) : Option Nat := (size? n key).map fun size => size.bytes.toNat

/-- The value of a key that is read leniently. -/
def lenient? (α : Type) [OfEntry α] (n : Node) (key : String) : Option α :=
  (n.value? key).bind OfEntry.read?

/-- The family named, or that of the first endpoint, where a host name is of version 4. -/
def prescribedFamily (n : Node) : Family :=
  ((n.value? "family").bind Family.ofName?).getD
    ((((endpoint? n "bind").or (endpoint? n "connect")).bind Endpoint.family?).getD .ipv4)

/-- A fraction of the bandwidth, or the whole of it. -/
def prescribedQuota (n : Node) (now : Instant) : Option Quota :=
  (size? n "bandwidth").bind fun capacity =>
    match n.value? "quota" with
    | some text => (Quota.parse now capacity text).toOption
    | none => some (Quota.unlimited now capacity)

/-- The settings that the keys of a section prescribe. -/
def prescribed (n : Node) (now : Instant) : SocketConfig Quota where
  scope := n.path
  family := prescribedFamily n
  kind := ((n.value? "type").bind Kind.ofName?).getD .stream
  bind := endpoint? n "bind"
  connect := endpoint? n "connect"
  options :=
    { reuseAddress := (lenient? Bool n "reuse address").getD false
      receiveBuffer := count? n "receive buffer"
      sendBuffer := count? n "send buffer"
      backlog := ((lenient? Signed32 n "backlog").map Ranged.value).getD 50
      readChunk := (count? n "read chunk").getD 1024
      acknowledge := (lenient? Bool n "acknowledge").getD false
      linger := none
      nonblocking := false
      quota := prescribedQuota n now }

/-! ## One check after another -/

variable {n : Node} {now : Instant} {key : String} {k : Check} {ks js : List Check}
  {e e' : SetupError} {α β : Type} {x : Except SetupError α}

theorem FirstWrong.append (h : FirstWrong n now ks e) (js : List Check) :
    FirstWrong n now (ks ++ js) e := by
  induction h with
  | here h => exact .here h
  | there hfine _ ih => exact .there hfine ih

theorem FirstWrong.behind (hfine : ∀ k ∈ ks, Fine n now k) (h : FirstWrong n now js e) :
    FirstWrong n now (ks ++ js) e := by
  induction ks with
  | nil => exact h
  | cons k ks ih =>
      obtain ⟨hk, hks⟩ := List.forall_mem_cons.mp hfine
      exact .there hk (ih hks)

theorem FirstWrong.not_fine (h : FirstWrong n now ks e) : ∃ k ∈ ks, ¬ Fine n now k := by
  induction h with
  | here h => exact ⟨_, List.mem_cons_self, fun hfine => hfine _ h⟩
  | there _ _ ih =>
      obtain ⟨k, hk, hwrong⟩ := ih
      exact ⟨k, List.mem_cons_of_mem _ hk, hwrong⟩

/-- A step that makes some checks: it fails with the error of the first that does. -/
def Decides (n : Node) (now : Instant) (ks : List Check) : Except SetupError α → Prop
  | .error e => FirstWrong n now ks e
  | .ok _ => ∀ k ∈ ks, Fine n now k

theorem Decides.pure (a : α) : Decides n now [] (.ok a) := by
  intro k hk
  cases hk

theorem Decides.bind {f : α → Except SetupError β} (hx : Decides n now ks x)
    (hf : ∀ a, x = .ok a → Decides n now js (f a)) : Decides n now (ks ++ js) (x.bind f) := by
  cases x with
  | error e => exact FirstWrong.append hx js
  | ok a =>
      have hstep := hf a rfl
      show Decides n now (ks ++ js) (f a)
      cases hfa : f a with
      | error e =>
          rw [hfa] at hstep
          exact FirstWrong.behind hx hstep
      | ok b =>
          rw [hfa] at hstep
          exact fun k hk => (List.mem_append.mp hk).elim (hx k) (hstep k)

/-- A step that fails exactly if one check does. -/
theorem Decides.one (h : ∀ e, x = .error e ↔ Wrong n now k e) : Decides n now [k] x := by
  cases x with
  | error e => exact .here ((h e).mp rfl)
  | ok a =>
      intro j hj e hwrong
      obtain rfl := List.mem_singleton.mp hj
      cases (h e).mpr hwrong

/-! ## Keys -/

theorem hasKey_eq (h : n.Indexed) (key : String) : n.hasKey key = (n.value? key).isSome := by
  rw [Bool.eq_iff_iff, Node.hasKey_iff h, Option.isSome_iff_exists]
  unfold Node.keys
  rw [List.mem_map]
  constructor
  · rintro ⟨⟨_, value⟩, hmem, rfl⟩
    exact ⟨value, (Node.value?_eq_some_iff h).mpr hmem⟩
  · rintro ⟨value, hvalue⟩
    exact ⟨_, (Node.value?_eq_some_iff h).mp hvalue, rfl⟩

theorem getAs_eq {α : Type} [OfEntry α] {text : String} (hvalue : n.value? key = some text) :
    n.getAs α key = match (OfEntry.read? text : Option α) with
      | some value => .ok value
      | none => .error (.badValue n.path key text (OfEntry.expected α)) := by
  unfold Node.getAs Node.get
  rw [hvalue]
  rfl

theorem getAsOr_eq {α : Type} [OfEntry α] (n : Node) (key : String) (default : α) :
    n.getAsOr key default = (lenient? α n key).getD default := by
  unfold Node.getAsOr lenient?
  cases hvalue : n.value? key with
  | none =>
      unfold Node.getAs Node.get
      rw [hvalue]
      rfl
  | some text =>
      rw [getAs_eq hvalue, Option.bind_some]
      cases (OfEntry.read? text : Option α) <;> rfl

theorem getAs_size {text : String} (hvalue : n.value? key = some text) : n.getAs ByteSize key
    = (ByteSize.parse text).mapError fun _ => .badValue n.path key text "a byte quantity" := by
  have hread : (OfEntry.read? text : Option ByteSize) = (ByteSize.parse text).toOption := rfl
  rw [getAs_eq hvalue, hread]
  cases ByteSize.parse text <;> rfl

theorem quota_eq {text : String} (hvalue : n.value? key = some text) (now : Instant)
    (capacity : ByteSize) : n.quota now key capacity
      = (Quota.parse now capacity text).mapError (.badQuota n.path key) := by
  unfold Node.quota Node.get
  rw [hvalue]
  cases hparse : Quota.parse now capacity text <;>
    simp [Bind.bind, Except.bind, hparse, Except.mapError]

/-! ## Steps -/

theorem readEndpoint_error :
    readEndpoint n key = .error e ↔ WrongEndpoint n key e := by
  unfold readEndpoint
  constructor
  · intro h
    split at h
    next => cases h
    next text hvalue =>
      cases hparse : Endpoint.parse text with
      | ok a => rw [hparse] at h; cases h
      | error e => rw [hparse] at h; cases h; exact .unreadable hvalue hparse
  · rintro ⟨hvalue, hparse⟩
    rw [hvalue]
    dsimp only
    rw [hparse]
    rfl

theorem readEndpoint_ok {a : Option Endpoint} (h : readEndpoint n key = .ok a) :
    a = endpoint? n key ∧ (a = none ↔ n.value? key = none) := by
  unfold readEndpoint at h
  unfold endpoint?
  split at h
  next hvalue =>
    cases h
    rw [hvalue]
    exact ⟨rfl, by simp⟩
  next text hvalue =>
    rw [hvalue]
    cases hparse : Endpoint.parse text with
    | error e => rw [hparse] at h; cases h
    | ok a =>
        rw [hparse] at h
        cases h
        exact ⟨by simp [hparse, Except.toOption], by simp⟩

theorem readFamily_error {bind connect : Option Endpoint}
    (hbind : bind = none ↔ n.value? "bind" = none)
    (hconnect : connect = none ↔ n.value? "connect" = none) :
    readFamily n bind connect = .error e ↔ Wrong n now .family e := by
  unfold readFamily
  constructor
  · intro h
    split at h
    next name hvalue =>
      split at h
      next => cases h
      next hname => cases h; exact .unknownFamily hvalue hname
    next hvalue =>
      split at h
      next => cases h
      next hor =>
        cases h
        obtain ⟨hb, hc⟩ := Option.or_eq_none_iff.mp hor
        exact .noFamily hvalue (hbind.mp hb) (hconnect.mp hc)
  · intro h
    cases h with
    | unknownFamily hvalue hname =>
        rw [hvalue]
        dsimp only
        rw [hname]
    | noFamily hfamily hb hc =>
        rw [hfamily, hbind.mpr hb, hconnect.mpr hc]
        rfl

theorem readFamily_ok {f : Family}
    (h : readFamily n (endpoint? n "bind") (endpoint? n "connect") = .ok f) :
    f = prescribedFamily n := by
  unfold readFamily at h
  unfold prescribedFamily
  split at h
  next name hvalue =>
    split at h
    next hname => cases h; rw [hvalue, Option.bind_some, hname, Option.getD_some]
    next => cases h
  next hvalue =>
    split at h
    next hor => cases h; rw [hvalue, hor]; rfl
    next => cases h

theorem readKind_error : readKind n = .error e ↔ Wrong n now .kind e := by
  unfold readKind
  constructor
  · intro h
    split at h
    next name hvalue =>
      split at h
      next => cases h
      next hname => cases h; exact .unknownKind hvalue hname
    next => cases h
  · rintro ⟨⟩
    next hvalue hname =>
      rw [hvalue]
      dsimp only
      rw [hname]

theorem readKind_ok {k : Kind} (h : readKind n = .ok k) :
    k = ((n.value? "type").bind Kind.ofName?).getD .stream := by
  unfold readKind at h
  split at h
  next name hvalue =>
    split at h
    next hname => cases h; rw [hvalue, Option.bind_some, hname, Option.getD_some]
    next => cases h
  next hvalue => cases h; rw [hvalue]; rfl

/-- A number of bytes is read by the size that is written. -/
theorem readCount_eq (h : n.Indexed) (key : String) : readCount n key = match n.value? key with
    | none => .ok none
    | some text =>
      match ByteSize.parse text with
      | .error _ => .error (badValue n key text "a byte quantity")
      | .ok size =>
        if size.bytes < 0 then .error (badValue n key size.display "a non-negative byte quantity")
        else .ok (some size.bytes.toNat) := by
  unfold readCount
  rw [hasKey_eq h]
  cases hvalue : n.value? key with
  | none => rfl
  | some text =>
      rw [getAs_size hvalue]
      dsimp only
      cases ByteSize.parse text <;> rfl

theorem readCount_error (h : n.Indexed) : readCount n key = .error e ↔ WrongCount n key e := by
  rw [readCount_eq h]
  constructor
  · intro hread
    split at hread
    next => cases hread
    next text hvalue =>
      split at hread
      next hparse => cases hread; exact .size (.unreadable hvalue hparse)
      next size hparse =>
        split_ifs at hread with hneg
        cases hread
        exact .negative hvalue hparse hneg
  · rintro (⟨⟨hvalue, hparse⟩⟩ | ⟨hvalue, hparse, hneg⟩)
    · rw [hvalue]
      dsimp only
      rw [hparse]
    · rw [hvalue]
      dsimp only
      rw [hparse]
      exact if_pos hneg

theorem readCount_ok (h : n.Indexed) {count : Option Nat} (hread : readCount n key = .ok count) :
    count = count? n key := by
  rw [readCount_eq h] at hread
  unfold count? size?
  split at hread
  next hvalue => cases hread; rw [hvalue]; rfl
  next text hvalue =>
    split at hread
    next => cases hread
    next size hparse =>
      split_ifs at hread
      cases hread
      rw [hvalue, Option.bind_some, hparse]
      rfl

/-- A quota is read by the size and the fraction that are written. -/
theorem readQuota_eq (h : n.Indexed) (now : Instant) :
    readQuota n now = match n.value? "bandwidth" with
    | none => .ok none
    | some bandwidth =>
      match ByteSize.parse bandwidth with
      | .error _ => .error (badValue n "bandwidth" bandwidth "a byte quantity")
      | .ok capacity =>
        match n.value? "quota" with
        | none => .ok (some (Quota.unlimited now capacity))
        | some text =>
          match Quota.parse now capacity text with
          | .error e => .error (.config (.badQuota n.path "quota" e))
          | .ok q => .ok (some q) := by
  unfold readQuota
  rw [hasKey_eq h, hasKey_eq h]
  cases hbandwidth : n.value? "bandwidth" with
  | none => rfl
  | some bandwidth =>
      rw [getAs_size hbandwidth]
      dsimp only
      cases ByteSize.parse bandwidth with
      | error e => rfl
      | ok capacity =>
          cases hvalue : n.value? "quota" with
          | none => rfl
          | some text =>
              have hquota := quota_eq hvalue now capacity
              show ((n.quota now "quota" capacity).map some).mapError SetupError.config
                = match Quota.parse now capacity text with
                  | .error e => .error (.config (.badQuota n.path "quota" e))
                  | .ok q => .ok (some q)
              rw [hquota]
              cases Quota.parse now capacity text <;> rfl

theorem fine_bandwidth (h : ∀ text, n.value? "bandwidth" = some text →
    ∃ size, ByteSize.parse text = .ok size) : Fine n now .bandwidth := by
  intro e hwrong
  cases hwrong with
  | bandwidth hsize =>
      obtain ⟨hvalue, hparse⟩ := hsize
      obtain ⟨size, hsize⟩ := h _ hvalue
      rw [hsize] at hparse
      cases hparse

theorem fine_quota (h : ∀ bandwidth capacity text, n.value? "bandwidth" = some bandwidth →
    ByteSize.parse bandwidth = .ok capacity → n.value? "quota" = some text →
    ∃ q, Quota.parse now capacity text = .ok q) : Fine n now .quota := by
  intro e hwrong
  cases hwrong with
  | quota hbandwidth hcapacity hvalue hparse =>
      obtain ⟨q, hq⟩ := h _ _ _ hbandwidth hcapacity hvalue
      rw [hq] at hparse
      cases hparse

/-- The fraction is looked at only behind a bandwidth that reads. -/
theorem readQuota_decides (h : n.Indexed) (now : Instant) :
    Decides n now [.bandwidth, .quota] (readQuota n now) := by
  rw [readQuota_eq h]
  have hboth (hbandwidth : Fine n now .bandwidth) (hquota : Fine n now .quota) :
      ∀ k ∈ [Check.bandwidth, .quota], Fine n now k := by
    simp only [List.mem_cons, List.not_mem_nil, or_false]
    rintro k (rfl | rfl)
    · exact hbandwidth
    · exact hquota
  -- without a bandwidth there is nothing to check, whatever the fraction
  cases hbandwidth : n.value? "bandwidth" with
  | none => exact hboth (fine_bandwidth (by simp [hbandwidth])) (fine_quota (by simp [hbandwidth]))
  | some bandwidth =>
      dsimp only
      cases hcapacity : ByteSize.parse bandwidth with
      | error e =>
          exact .here (.bandwidth (.unreadable hbandwidth hcapacity))
      | ok capacity =>
          have hfine : Fine n now .bandwidth := fine_bandwidth (by simp [hbandwidth, hcapacity])
          dsimp only
          cases hvalue : n.value? "quota" with
          | none => exact hboth hfine (fine_quota (by simp [hvalue]))
          | some text =>
              dsimp only
              cases hparse : Quota.parse now capacity text with
              | error e =>
                  exact .there hfine (.here (.quota hbandwidth hcapacity hvalue hparse))
              | ok q =>
                  refine hboth hfine (fine_quota fun _ _ _ hb hc ht => ⟨q, ?_⟩)
                  obtain rfl := Option.some.inj (hbandwidth.symm.trans hb)
                  obtain rfl := Except.ok.inj (hcapacity.symm.trans hc)
                  obtain rfl := Option.some.inj (hvalue.symm.trans ht)
                  exact hparse

theorem readQuota_ok (h : n.Indexed) {quota : Option Quota} (hread : readQuota n now = .ok quota) :
    quota = prescribedQuota n now := by
  rw [readQuota_eq h] at hread
  unfold prescribedQuota size?
  split at hread
  next hvalue => cases hread; rw [hvalue]; rfl
  next bandwidth hvalue =>
    rw [hvalue, Option.bind_some]
    split at hread
    next => cases hread
    next capacity hparse =>
      rw [hparse]
      show quota = match n.value? "quota" with
        | some text => (Quota.parse now capacity text).toOption
        | none => some (Quota.unlimited now capacity)
      split at hread
      next hnone => cases hread; rw [hnone]
      next text htext =>
        rw [htext]
        split at hread
        next => cases hread
        next q hq => cases hread; dsimp only; rw [hq]; rfl

/-! ## The whole reading -/

theorem ofNode_eq (n : Node) (now : Instant) : ofNode n now =
    (readEndpoint n "bind").bind fun bind =>
    (readEndpoint n "connect").bind fun connect =>
    (readFamily n bind connect).bind fun family =>
    (readKind n).bind fun kind =>
    (readCount n "receive buffer").bind fun receiveBuffer =>
    (readCount n "send buffer").bind fun sendBuffer =>
    (readCount n "read chunk").bind fun readChunk =>
    (readQuota n now).bind fun quota =>
    .ok
      { scope := n.path, family, kind, bind, connect
        options :=
          { reuseAddress := n.getAsOr "reuse address" false
            receiveBuffer, sendBuffer
            backlog := (n.getAsOr "backlog" (⟨50, by decide, by decide⟩ : Signed32)).value
            readChunk := readChunk.getD defaultReadChunk
            acknowledge := n.getAsOr "acknowledge" false
            quota } } := rfl

theorem ofNode_decides (h : n.Indexed) (now : Instant) :
    Decides n now checks (ofNode n now) := by
  rw [ofNode_eq]
  have hendpoint {k : Check} {key : String}
      (hk : ∀ e, WrongEndpoint n key e ↔ Wrong n now k e) :
      Decides n now [k] (readEndpoint n key) :=
    .one fun e => readEndpoint_error.trans (hk e)
  have hcount {k : Check} {key : String} (hk : ∀ e, WrongCount n key e ↔ Wrong n now k e) :
      Decides n now [k] (readCount n key) :=
    .one fun e => (readCount_error h).trans (hk e)
  refine (hendpoint fun e => ⟨.bind, fun | .bind h => h⟩).bind fun bind hbind => ?_
  refine (hendpoint fun e => ⟨.connect, fun | .connect h => h⟩).bind fun connect hconnect => ?_
  refine (Decides.one fun e => readFamily_error (readEndpoint_ok hbind).2
    (readEndpoint_ok hconnect).2).bind fun family _ => ?_
  refine (Decides.one fun e => readKind_error).bind fun kind _ => ?_
  refine (hcount fun e => ⟨.receiveBuffer, fun | .receiveBuffer h => h⟩).bind fun _ _ => ?_
  refine (hcount fun e => ⟨.sendBuffer, fun | .sendBuffer h => h⟩).bind fun _ _ => ?_
  refine (hcount fun e => ⟨.readChunk, fun | .readChunk h => h⟩).bind fun _ _ => ?_
  exact (readQuota_decides h now).bind fun quota _ => .pure _

/-- A check finds one thing wrong. -/
theorem Wrong.unique (hn : n.Indexed) (h : Wrong n now k e) (h' : Wrong n now k e') : e = e' := by
  have hendpoint {key : String} (h : WrongEndpoint n key e) (h' : WrongEndpoint n key e') :
      e = e' :=
    Except.error.inj ((readEndpoint_error.mpr h).symm.trans (readEndpoint_error.mpr h'))
  have hcount {key : String} (h : WrongCount n key e) (h' : WrongCount n key e') : e = e' :=
    Except.error.inj (((readCount_error hn).mpr h).symm.trans ((readCount_error hn).mpr h'))
  cases h with
  | bind h => cases h' with | bind h' => exact hendpoint h h'
  | connect h => cases h' with | connect h' => exact hendpoint h h'
  | unknownFamily hvalue hname =>
      cases h' with
      | unknownFamily hvalue' => cases hvalue.symm.trans hvalue'; rfl
      | noFamily hnone => cases hvalue.symm.trans hnone
  | noFamily hnone =>
      cases h' with
      | unknownFamily hvalue => cases hvalue.symm.trans hnone
      | noFamily => rfl
  | unknownKind hvalue hname =>
      cases h' with
      | unknownKind hvalue' => cases hvalue.symm.trans hvalue'; rfl
  | receiveBuffer h => cases h' with | receiveBuffer h' => exact hcount h h'
  | sendBuffer h => cases h' with | sendBuffer h' => exact hcount h h'
  | readChunk h => cases h' with | readChunk h' => exact hcount h h'
  | bandwidth h => cases h' with | bandwidth h' => exact hcount (.size h) (.size h')
  | quota hbandwidth hcapacity hvalue hparse =>
      cases h' with
      | quota hbandwidth' hcapacity' hvalue' hparse' =>
          cases hbandwidth.symm.trans hbandwidth'
          cases hcapacity.symm.trans hcapacity'
          cases hvalue.symm.trans hvalue'
          cases hparse.symm.trans hparse'
          rfl

theorem FirstWrong.unique (hn : n.Indexed) (h : FirstWrong n now ks e)
    (h' : FirstWrong n now ks e') : e = e' := by
  induction h with
  | here h =>
      cases h' with
      | here h' => exact h.unique hn h'
      | there hfine => exact absurd h (hfine _)
  | there hfine _ ih =>
      cases h' with
      | here h' => exact absurd h' (hfine _)
      | there _ h' => exact ih h'

/-- What is read is what the keys prescribe. -/
theorem ofNode_ok (h : n.Indexed) {c : SocketConfig Quota} (hread : ofNode n now = .ok c) :
    c = prescribed n now := by
  rw [ofNode_eq] at hread
  obtain ⟨bind, hbind, hread⟩ := bind_eq_ok.mp hread
  obtain ⟨connect, hconnect, hread⟩ := bind_eq_ok.mp hread
  obtain rfl := (readEndpoint_ok hbind).1
  obtain rfl := (readEndpoint_ok hconnect).1
  obtain ⟨family, hfamily, hread⟩ := bind_eq_ok.mp hread
  obtain rfl := readFamily_ok hfamily
  obtain ⟨kind, hkind, hread⟩ := bind_eq_ok.mp hread
  obtain rfl := readKind_ok hkind
  obtain ⟨receiveBuffer, hreceive, hread⟩ := bind_eq_ok.mp hread
  obtain rfl := readCount_ok h hreceive
  obtain ⟨sendBuffer, hsend, hread⟩ := bind_eq_ok.mp hread
  obtain rfl := readCount_ok h hsend
  obtain ⟨readChunk, hchunk, hread⟩ := bind_eq_ok.mp hread
  obtain rfl := readCount_ok h hchunk
  obtain ⟨quota, hquota, hread⟩ := bind_eq_ok.mp hread
  obtain rfl := readQuota_ok h hquota
  rw [getAsOr_eq, getAsOr_eq, getAsOr_eq, ← Option.getD_map Ranged.value] at hread
  exact (Except.ok.inj hread).symm

/-- Nothing but the path and the keys is looked at. -/
theorem ofNode_congr {n' : Node} (h : n.Indexed) (h' : n'.Indexed) (hpath : n'.path = n.path)
    (hkeys : ∀ key ∈ settingKeys, n'.value? key = n.value? key) (now : Instant) :
    ofNode n' now = ofNode n now := by
  simp only [settingKeys, List.forall_mem_cons] at hkeys
  obtain ⟨hbind, hconnect, hfamily, hkind, hbacklog, hreuse, hacknowledge, hreceive, hsend, hchunk,
    hbandwidth, hquota, -⟩ := hkeys
  simp only [ofNode_eq, readEndpoint, readFamily, readKind, readCount_eq h, readCount_eq h',
    readQuota_eq h, readQuota_eq h', getAsOr_eq, lenient?, badValue, hpath, hbind, hconnect,
    hfamily, hkind, hbacklog, hreuse, hacknowledge, hreceive, hsend, hchunk, hbandwidth, hquota]

/-- **What settings are read from a section, and what is wrong with it.** Reading fails exactly if
something is wrong, with the error of the first check that fails. Where nothing is wrong the
settings are those that the keys prescribe. Sections with the same path and the same texts for the
twelve keys are read alike. That a section is indexed says that its keys are found where they stand;
all sections of a text are (`Node.Sound.indexed`). -/
theorem ofNode_first_wrong (h : n.Indexed) (now : Instant) :
    (∀ e, ofNode n now = .error e ↔ FirstWrong n now checks e)
      ∧ (∀ c, ofNode n now = .ok c ↔ (∀ k, Fine n now k) ∧ c = prescribed n now)
      ∧ ∀ n' : Node, n'.Indexed → n'.path = n.path →
        (∀ key ∈ settingKeys, n'.value? key = n.value? key) → ofNode n' now = ofNode n now := by
  have hdecides := ofNode_decides h now
  have hall (k : Check) : k ∈ checks := by cases k <;> decide
  refine ⟨fun e => ?_, fun c => ?_, fun n' h' hpath hkeys => ofNode_congr h h' hpath hkeys now⟩
  · constructor
    · intro hread
      rwa [hread] at hdecides
    · intro hwrong
      cases hread : ofNode n now with
      | error e' =>
          rw [hread] at hdecides
          rw [FirstWrong.unique h hwrong hdecides]
      | ok c =>
          rw [hread] at hdecides
          obtain ⟨k, hk, hnot⟩ := hwrong.not_fine
          exact absurd (hdecides k hk) hnot
  · constructor
    · intro hread
      rw [hread] at hdecides
      exact ⟨fun k => hdecides k (hall k), ofNode_ok h hread⟩
    · rintro ⟨hfine, rfl⟩
      cases hread : ofNode n now with
      | error e =>
          rw [hread] at hdecides
          obtain ⟨k, -, hnot⟩ := FirstWrong.not_fine hdecides
          exact absurd (hfine k) hnot
      | ok c => rw [ofNode_ok h hread]

/-- A section with an unknown family and, checked later, a malformed size, and a section with a
malformed backlog. -/
theorem ofNode_first_wrong_sections :
    ofNode (((Node.emptyBelow "" "server").addEntry "send buffer" "lots").addEntry "family" "ipx") 0
        = .error (.config (.badValue "server" "family" "ipx" "unix, ipv4 or ipv6"))
      ∧ ∃ c, ofNode (((Node.emptyBelow "" "server").addEntry "backlog" "many").addEntry "bind"
          "/run/app.sock") 0 = .ok c
        ∧ c.family = .unix ∧ c.kind = .stream ∧ c.options.backlog = 50 := by
  have hempty : (Node.emptyBelow "" "server").Indexed := (Node.sound_emptyBelow _ _).indexed
  constructor
  · have hindexed : (((Node.emptyBelow "" "server").addEntry "send buffer" "lots").addEntry
        "family" "ipx").Indexed :=
      Node.indexed_addEntry (Node.indexed_addEntry hempty (by decide)) (by decide)
    have hnone : ∀ key ∈ ["bind", "connect"], (((Node.emptyBelow "" "server").addEntry
        "send buffer" "lots").addEntry "family" "ipx").value? key = none := by decide
    refine ((ofNode_first_wrong hindexed 0).1 _).mpr (.there (k := .bind) ?_
      (.there (k := .connect) ?_ (.here (.unknownFamily (by decide) (by decide)))))
    · rintro e ⟨⟨hvalue, -⟩⟩
      cases (hnone "bind" (by decide)).symm.trans hvalue
    · intro e hwrong
      cases hwrong with
      | connect h =>
          obtain ⟨hvalue, -⟩ := h
          cases (hnone "connect" (by decide)).symm.trans hvalue
  · have hindexed : (((Node.emptyBelow "" "server").addEntry "backlog" "many").addEntry
        "bind" "/run/app.sock").Indexed :=
      Node.indexed_addEntry (Node.indexed_addEntry hempty (by decide)) (by decide)
    have hok : (ofNode (((Node.emptyBelow "" "server").addEntry "backlog" "many").addEntry "bind"
        "/run/app.sock") 0).toOption.isSome = true := by decide +kernel
    obtain ⟨c, hc⟩ := Option.isSome_iff_exists.mp hok
    have hread := Config.Library.eq_ok_of_toOption hc
    obtain ⟨-, rfl⟩ := ((ofNode_first_wrong hindexed 0).2.1 c).mp hread
    exact ⟨_, hread, by decide +kernel⟩

end PacedNet.SocketConfig
