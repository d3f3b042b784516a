import PacedNet.Proofs.Host.Duplex
import PacedNet.Proofs.Socket.Delivery
import PacedNet.Proofs.Socket.Phases

/-!
# What an acknowledgement tells

One end of a stream sends, synchronously and asynchronously and several sends at a time; the other
receives, and replies to each receive with one octet. The octet does not say what it is a reply
to: a synchronous send takes the first that comes, and that may be one for octets which other
sends, or earlier rounds of the same one, had put on the way (`stale_unread`).

So a synchronous send that succeeds tells that its payload was read if at some moment after its
last octet went out nothing stood between it and a reply of its own: no reply lay on the way, and
no receive had seen the queue empty and was about to reply (`acknowledged_read`). From that moment
on, whoever replies has seen the queue empty, with all of the payload taken off it.

Every step of a transfer and of a receive is one of its own (`Carriage.next`, `Receipt.next`), so
that all orders of them are spoken of. Of the octets it is written down which send they are of and
which receive took them.
-/

namespace PacedNet

/-- A send that was begun. -/
structure Sending where
  payload : Payload
  options : SendOptions
  link : Link
  /-- It waits for a reply. -/
  synchronous : Bool
  phase : Carriage

/-- A receive that was begun. -/
structure Receiving where
  socket : Socket
  link : Link
  phase : Receipt

/-- An octet of the send with that number. -/
structure Tagged where
  send : Nat
  octet : UInt8
deriving DecidableEq

/-- The two ends of a stream at work. -/
structure Exchange (K : Type) where
  machine : Machine K
  sends : List Sending
  receives : List Receiving
  /-- All octets that were put on the way. -/
  wire : List Tagged
  /-- Those that were taken off it, each with the number of the receive that took it. -/
  taken : List (Nat × Tagged)

namespace Exchange

variable {K : Type} {a b : Descriptor} {up : K → Prop} {queue back : K → List UInt8}
  {c c' c₁ c₂ : Exchange K} {s : Sending} {r : Receiving} {i j : Nat}

/-- A stream on which nothing was sent yet. -/
def opening (m : Machine K) : Exchange K := ⟨m, [], [], [], []⟩

/-- The octets of a send among others. -/
def octetsOf (i : Nat) (octets : List Tagged) : List UInt8 :=
  (octets.filter (·.send = i)).map Tagged.octet

/-- The octets that a receive has taken, among all that were. -/
def takenBy (j : Nat) (taken : List (Nat × Tagged)) : List UInt8 :=
  (taken.filter (·.1 = j)).map (·.2.octet)

/-- No reply lies on the way, and no receive is about to reply. -/
structure Quiet (back : K → List UInt8) (c : Exchange K) : Prop where
  back : back c.machine.kernel = []
  replies : ∀ r ∈ c.receives, ¬ r.phase.Replies

theorem octetsOf_append (i : Nat) (x y : List Tagged) :
    octetsOf i (x ++ y) = octetsOf i x ++ octetsOf i y := by
  unfold octetsOf
  rw [List.filter_append, List.map_append]

/-- Octets that a send has put on the way are of that send. -/
theorem octetsOf_map (i k : Nat) (out : List UInt8) :
    octetsOf k (out.map (⟨i, ·⟩)) = if i = k then out else [] := by
  unfold octetsOf
  split
  · rename_i h
    simp [List.filter_map, Function.comp_def, h]
  · rename_i h
    simp [List.filter_map, Function.comp_def, h]

theorem takenBy_append (j : Nat) (x y : List (Nat × Tagged)) :
    takenBy j (x ++ y) = takenBy j x ++ takenBy j y := by
  unfold takenBy
  rw [List.filter_append, List.map_append]

/-- What a receive has taken at once. -/
theorem takenBy_map (j k : Nat) (octets : List Tagged) :
    takenBy k (octets.map (j, ·)) = if j = k then octets.map Tagged.octet else [] := by
  unfold takenBy
  split
  · rename_i h
    simp [List.filter_map, Function.comp_def, h]
  · rename_i h
    simp [List.filter_map, Function.comp_def, h]

/-- What is found in a list with another last entry. -/
theorem getElem?_append_cases {α : Type} {l : List α} {x y : α} (h : (l ++ [x])[i]? = some y) :
    l[i]? = some y ∨ i = l.length ∧ y = x := by
  by_cases hi : i < l.length
  · rw [List.getElem?_append_left hi] at h
    exact .inl h
  · have hlast : i = l.length := by
      obtain ⟨hlt, -⟩ := List.getElem?_eq_some_iff.mp h
      rw [List.length_append, List.length_singleton] at hlt
      omega
    exact .inr ⟨hlast, by simpa [hlast] using h.symm⟩

/-- What is found in a list with one entry changed. -/
theorem getElem?_set_cases {α : Type} {l : List α} {k : Nat} {x y : α}
    (h : (l.set k x)[i]? = some y) : i ≠ k ∧ l[i]? = some y ∨ i = k ∧ y = x := by
  rw [List.getElem?_set] at h
  split at h
  · rename_i hk
    split at h
    · exact .inr ⟨hk.symm, (Option.some.inj h).symm⟩
    · exact absurd h (by simp)
  · rename_i hk
    exact .inl ⟨fun he => hk he.symm, h⟩

/-- What the exchange has written down is true of it. -/
structure Sound (a b : Descriptor) (up : K → Prop) (queue : K → List UInt8) (c : Exchange K) :
    Prop where
  up : up c.machine.kernel
  proper : c.machine.Proper
  /-- Of each send as much is on the way as it says. -/
  sends : ∀ (i : Nat) (s : Sending), c.sends[i]? = some s → s.link.descriptor = a
    ∧ s.phase.Fits (s.payload.carried s.options.pass) (octetsOf i c.wire)
  /-- Each receive has taken what it has read. -/
  receives : ∀ (j : Nat) (r : Receiving), c.receives[j]? = some r →
    r.link.descriptor = b ∧ 0 < r.socket.readChunk
      ∧ (¬ r.phase.Failed → takenBy j c.taken = r.phase.read)
  /-- What was not taken lies in the queue. -/
  books : ∃ rest, c.wire = c.taken.map Prod.snd ++ rest
    ∧ rest.map Tagged.octet = queue c.machine.kernel
  known : (∀ t ∈ c.wire, t.send < c.sends.length) ∧ ∀ t ∈ c.taken, t.1 < c.receives.length

theorem sound_opening {m : Machine K} (hup : up m.kernel) (hproper : m.Proper)
    (hempty : queue m.kernel = []) : Sound a b up queue (opening m) where
  up := hup
  proper := hproper
  sends i s h := absurd h (by simp [opening])
  receives j r h := absurd h (by simp [opening])
  books := ⟨[], rfl, hempty.symm⟩
  known := ⟨by simp [opening], by simp [opening]⟩

/-- A number that no send has yet is on no octet. -/
theorem octetsOf_fresh {octets : List Tagged} (h : ∀ t ∈ octets, t.send < i) :
    octetsOf i octets = [] := by
  unfold octetsOf
  rw [List.map_eq_nil_iff, List.filter_eq_nil_iff]
  intro t ht
  have := h t ht
  simp only [decide_eq_true_eq]
  omega

/-- A receive that was not begun yet has taken nothing. -/
theorem takenBy_fresh {taken : List (Nat × Tagged)} (h : ∀ t ∈ taken, t.1 < j) :
    takenBy j taken = [] := by
  unfold takenBy
  rw [List.map_eq_nil_iff, List.filter_eq_nil_iff]
  intro t ht
  have := h t ht
  simp only [decide_eq_true_eq]
  omega

/-! ## What may happen -/

/-- A send of a payload begins. -/
def begin (c : Exchange K) (p : Payload) (options : SendOptions) (synchronous : Bool)
    (link : Link) : Exchange K :=
  { c with sends := c.sends ++ [⟨p, options, link, synchronous, .start (p.parcel options)⟩] }

/-- A receive begins. -/
def receive (c : Exchange K) (socket : Socket) (link : Link) : Exchange K :=
  { c with receives := c.receives ++ [⟨socket, link, .reading⟩] }

variable [Kernel K]

/-- A send does its next step. -/
def advance (c : Exchange K) (i : Nat) (s : Sending) : Exchange K :=
  let (phase, machine) := s.phase.next s.link s.options.flags s.synchronous c.machine
  { c with
    machine
    sends := c.sends.set i { s with phase }
    wire := c.wire ++ (s.phase.sent phase).map (⟨i, ·⟩) }

/-- A receive does its next step. -/
def proceed (c : Exchange K) (j : Nat) (r : Receiving) : Exchange K :=
  let (phase, machine) := r.phase.next r.socket r.link c.machine
  let more := phase.read.length - r.phase.read.length
  { c with
    machine
    receives := c.receives.set j { r with phase }
    taken := c.taken ++ ((c.wire.drop c.taken.length).take more).map (j, ·) }

/-- What may happen between a stream's ends `a`, which sends, and `b`, which receives. -/
inductive Step (a b : Descriptor) (up : K → Prop) (queue back : K → List UInt8) :
    Exchange K → Exchange K → Prop where
  | begin (c : Exchange K) (p : Payload) (options : SendOptions) (synchronous : Bool)
      {link : Link} : link.descriptor = a → link.kind = .stream →
      Step a b up queue back c (c.begin p options synchronous link)
  | advance (c : Exchange K) {i : Nat} {s : Sending} :
      c.sends[i]? = some s → Step a b up queue back c (c.advance i s)
  | receive (c : Exchange K) {socket : Socket} {link : Link} : socket.reader = .ok link →
      socket.kind = .stream → 0 < socket.readChunk → link.descriptor = b →
      Step a b up queue back c (c.receive socket link)
  | proceed (c : Exchange K) {j : Nat} {r : Receiving} :
      c.receives[j]? = some r → Step a b up queue back c (c.proceed j r)
  /-- Others leave what lies on the way. Time goes on, quotas are set and drawn on, transfers are
  cancelled, other connections are used. -/
  | elsewhere (c : Exchange K) {machine : Machine K} : machine.Proper → up machine.kernel →
      queue machine.kernel = queue c.machine.kernel → back machine.kernel = back c.machine.kernel →
      Step a b up queue back c { c with machine }

/-- A state that an exchange may come to. -/
abbrev Reaches (a b : Descriptor) (up : K → Prop) (queue back : K → List UInt8)
    (c c' : Exchange K) : Prop :=
  Relation.ReflTransGen (Step a b up queue back) c c'

/-! ## One step -/

omit [Kernel K] in
theorem sound_begin (h : Sound a b up queue c) (p : Payload) (options : SendOptions)
    (synchronous : Bool) {link : Link} (hlink : link.descriptor = a) :
    Sound a b up queue (c.begin p options synchronous link) where
  up := h.up
  proper := h.proper
  sends i s hs := by
    rcases getElem?_append_cases hs with hold | ⟨rfl, rfl⟩
    · exact h.sends i s hold
    · refine ⟨hlink, ?_⟩
      show octetsOf c.sends.length c.wire ++ Transfer.streamWire (p.parcel options) = _
      rw [octetsOf_fresh h.known.1, streamWire_parcel]
      rfl
  receives := h.receives
  books := h.books
  known := by
    refine ⟨fun t ht => ?_, h.known.2⟩
    have := h.known.1 t ht
    show t.send < (c.sends ++ _).length
    rw [List.length_append]
    omega

omit [Kernel K] in
theorem sound_receive (h : Sound a b up queue c) {socket : Socket} {link : Link}
    (hlink : link.descriptor = b) (hchunk : 0 < socket.readChunk) :
    Sound a b up queue (c.receive socket link) where
  up := h.up
  proper := h.proper
  sends := h.sends
  receives j r hr := by
    rcases getElem?_append_cases hr with hold | ⟨rfl, rfl⟩
    · exact h.receives j r hold
    · exact ⟨hlink, hchunk, fun _ => takenBy_fresh h.known.2⟩
  books := h.books
  known := by
    refine ⟨h.known.1, fun t ht => ?_⟩
    have := h.known.2 t ht
    show t.1 < (c.receives ++ _).length
    rw [List.length_append]
    omega

/-- What a step of a send leaves: its octets are on the way and in the queue. -/
theorem sound_advance (hK : Kernel.Duplex a b up queue back) (hT : Kernel.TakesSome K)
    (h : Sound a b up queue c) (hi : c.sends[i]? = some s) :
    Sound a b up queue (c.advance i s) := by
  cases hnext : s.phase.next s.link s.options.flags s.synchronous c.machine with
  | mk phase machine =>
      obtain ⟨hlink, hfits⟩ := h.sends i s hi
      obtain ⟨hmoves, hup, hqueue, -, hnow⟩ :=
        Carriage.next_spec hK hT hlink h.proper h.up hnext
      have hstep : c.advance i s = { c with
          machine, sends := c.sends.set i { s with phase }
          wire := c.wire ++ (s.phase.sent phase).map (⟨i, ·⟩) } := by
        unfold advance
        rw [hnext]
      rw [hstep]
      obtain ⟨rest, hwire, hrest⟩ := h.books
      obtain ⟨hlt, -⟩ := List.getElem?_eq_some_iff.mp hi
      refine ⟨hup, hmoves.proper h.proper, fun k t ht => ?_, h.receives, ?_, fun t ht => ?_,
        h.known.2⟩
      · dsimp only
        rw [octetsOf_append, octetsOf_map]
        rcases getElem?_set_cases ht with ⟨hne, hold⟩ | ⟨rfl, rfl⟩
        · rw [if_neg (Ne.symm hne), List.append_nil]
          exact h.sends k t hold
        · rw [if_pos rfl]
          exact ⟨hlink, hnow _ _ hfits⟩
      · refine ⟨rest ++ (s.phase.sent phase).map (⟨i, ·⟩), ?_, ?_⟩
        · dsimp only
          rw [hwire, List.append_assoc]
        · dsimp only
          rw [List.map_append, hrest, hqueue, List.map_map]
          simp [Function.comp_def]
      · dsimp only at ht ⊢
        rw [List.length_set]
        rcases List.mem_append.mp ht with hold | hnew
        · exact h.known.1 t hold
        · obtain ⟨octet, -, rfl⟩ := List.mem_map.mp hnew
          exact hlt

/-- What a step of a receive leaves: what it has read is no longer in the queue. -/
theorem sound_proceed (hK : Kernel.Duplex a b up queue back) (h : Sound a b up queue c)
    (hj : c.receives[j]? = some r) : Sound a b up queue (c.proceed j r) := by
  cases hnext : r.phase.next r.socket r.link c.machine with
  | mk phase machine =>
      obtain ⟨hlink, hchunk, htaken⟩ := h.receives j r hj
      obtain ⟨hmoves, hup, ⟨got, hqueue, hlength, hread⟩, -⟩ :=
        Receipt.next_spec hK hlink hchunk h.proper h.up hnext
      have hstep : c.proceed j r = { c with
          machine, receives := c.receives.set j { r with phase }
          taken := c.taken ++ ((c.wire.drop c.taken.length).take got.length).map (j, ·) } := by
        unfold proceed
        rw [hnext, hlength]
      rw [hstep]
      obtain ⟨rest, hwire, hrest⟩ := h.books
      obtain ⟨hlt, -⟩ := List.getElem?_eq_some_iff.mp hj
      have hdrop : c.wire.drop c.taken.length = rest := by
        rw [hwire, List.drop_left' (by rw [List.length_map])]
      rw [hdrop]
      -- what is next on the wire is what came off the queue
      have hgot : (rest.take got.length).map Tagged.octet = got := by
        rw [List.map_take, hrest, hqueue, List.take_left]
      refine ⟨hup, hmoves.proper h.proper, h.sends, fun k t ht => ?_, ?_, h.known.1,
        fun t ht => ?_⟩
      · dsimp only
        rw [takenBy_append, takenBy_map, hgot]
        rcases getElem?_set_cases ht with ⟨hne, hold⟩ | ⟨rfl, rfl⟩
        · rw [if_neg (Ne.symm hne), List.append_nil]
          exact h.receives k t hold
        · refine ⟨hlink, hchunk, fun hok => ?_⟩
          rw [if_pos rfl]
          obtain ⟨hbefore, hmore⟩ := hread hok
          rw [htaken hbefore]
          exact hmore.symm
      · refine ⟨rest.drop got.length, ?_, ?_⟩
        · dsimp only
          rw [List.map_append, List.map_map]
          show c.wire = (_ ++ (rest.take got.length).map id) ++ _
          rw [List.map_id, List.append_assoc, List.take_append_drop]
          exact hwire
        · dsimp only
          rw [List.map_drop, hrest, hqueue, List.drop_left]
      · dsimp only at ht ⊢
        rw [List.length_set]
        rcases List.mem_append.mp ht with hold | hnew
        · exact h.known.2 t hold
        · obtain ⟨tagged, -, rfl⟩ := List.mem_map.mp hnew
          exact hlt

/-- **The books are kept.** -/
theorem sound_step (hK : Kernel.Duplex a b up queue back) (hT : Kernel.TakesSome K)
    (h : Sound a b up queue c) (hs : Step a b up queue back c c') : Sound a b up queue c' := by
  cases hs with
  | begin p options synchronous hlink _ => exact sound_begin h p options synchronous hlink
  | advance hi => exact sound_advance hK hT h hi
  | receive _ _ hchunk hlink => exact sound_receive h hlink hchunk
  | proceed hj => exact sound_proceed hK h hj
  | elsewhere hproper hup hqueue _ =>
      refine ⟨hup, hproper, h.sends, h.receives, ?_, h.known⟩
      dsimp only
      rw [hqueue]
      exact h.books

theorem sound_reaches (hK : Kernel.Duplex a b up queue back) (hT : Kernel.TakesSome K)
    (h : Sound a b up queue c) (hs : Reaches a b up queue back c c') : Sound a b up queue c' := by
  induction hs with
  | refl => exact h
  | tail _ hstep ih => exact sound_step hK hT ih hstep

/-- What was put on the way and what was taken off it stays written down. -/
theorem grows_step (hs : Step a b up queue back c c') :
    c.wire <+: c'.wire ∧ c.taken <+: c'.taken := by
  cases hs with
  | begin _ _ _ _ _ => exact ⟨List.prefix_refl _, List.prefix_refl _⟩
  | advance _ => exact ⟨List.prefix_append _ _, List.prefix_refl _⟩
  | receive _ _ _ _ => exact ⟨List.prefix_refl _, List.prefix_refl _⟩
  | proceed _ => exact ⟨List.prefix_refl _, List.prefix_append _ _⟩
  | elsewhere _ _ _ _ => exact ⟨List.prefix_refl _, List.prefix_refl _⟩

/-- A send keeps its number and what it sends. -/
theorem send_step (hs : Step a b up queue back c c') (hi : c.sends[i]? = some s) :
    ∃ s', c'.sends[i]? = some s' ∧ s'.payload = s.payload ∧ s'.options = s.options := by
  obtain ⟨hlt, -⟩ := List.getElem?_eq_some_iff.mp hi
  cases hs with
  | begin _ _ _ _ _ => exact ⟨s, (List.getElem?_append_left hlt).trans hi, rfl, rfl⟩
  | @advance k t hk =>
      by_cases heq : k = i
      · subst heq
        obtain rfl : s = t := Option.some.inj (hi.symm.trans hk)
        exact ⟨_, List.getElem?_set_self hlt, rfl, rfl⟩
      · exact ⟨s, (List.getElem?_set_ne heq).trans hi, rfl, rfl⟩
  | receive _ _ _ _ => exact ⟨s, hi, rfl, rfl⟩
  | proceed _ => exact ⟨s, hi, rfl, rfl⟩
  | elsewhere _ _ _ _ => exact ⟨s, hi, rfl, rfl⟩

/-! ## After a quiet moment -/

/-- The exchange is quiet, and a send waits for its reply or did so in vain. -/
structure Pending (back : K → List UInt8) (i : Nat) (c : Exchange K) : Prop where
  quiet : c.Quiet back
  waits : ∃ s, c.sends[i]? = some s ∧ s.phase.Waits

/-- **What was on the way is taken off it before the next reply is sent.** A receive that replies
has seen the queue empty. -/
theorem pending_step (hK : Kernel.Duplex a b up queue back) (hT : Kernel.TakesSome K)
    (h : Sound a b up queue c) (hs : Step a b up queue back c c') (hp : c.Pending back i) :
    c.wire.length ≤ c'.taken.length ∨ c'.Pending back i := by
  have hsound := sound_step hK hT h hs
  obtain ⟨⟨hback, hreplies⟩, s, hi, hwaits⟩ := hp
  obtain ⟨hlt, -⟩ := List.getElem?_eq_some_iff.mp hi
  cases hs with
  | begin _ _ _ _ _ =>
      exact .inr ⟨⟨hback, hreplies⟩, s, (List.getElem?_append_left hlt).trans hi, hwaits⟩
  | @advance k t hk =>
      cases hnext : t.phase.next t.link t.options.flags t.synchronous c.machine with
      | mk phase machine =>
          obtain ⟨hlink, -⟩ := h.sends k t hk
          obtain ⟨-, -, -, hkeep, -⟩ := Carriage.next_spec hK hT hlink h.proper h.up hnext
          have hphase := congrArg Prod.fst hnext
          have hmachine := congrArg Prod.snd hnext
          refine .inr ⟨⟨?_, hreplies⟩, ?_⟩
          · show back (t.phase.next t.link t.options.flags t.synchronous c.machine).2.kernel = []
            rw [hmachine]
            exact hkeep hback
          · by_cases heq : k = i
            · subst heq
              obtain rfl : s = t := Option.some.inj (hi.symm.trans hk)
              refine ⟨_, List.getElem?_set_self hlt, ?_⟩
              show (s.phase.next s.link s.options.flags s.synchronous c.machine).1.Waits
              rw [hphase]
              exact Carriage.next_waits hK hlink h.up hback hwaits hnext
            · exact ⟨s, (List.getElem?_set_ne heq).trans hi, hwaits⟩
  | receive _ _ _ _ =>
      refine .inr ⟨⟨hback, fun r hr => ?_⟩, s, hi, hwaits⟩
      rcases List.mem_append.mp hr with hold | hnew
      · exact hreplies r hold
      · obtain rfl := List.mem_singleton.mp hnew
        exact id
  | @proceed j r hj =>
      cases hnext : r.phase.next r.socket r.link c.machine with
      | mk phase machine =>
          obtain ⟨hlink, hchunk, -⟩ := h.receives j r hj
          obtain ⟨-, -, -, hlast, hsame⟩ :=
            Receipt.next_spec hK hlink hchunk h.proper h.up hnext
          have hphase := congrArg Prod.fst hnext
          have hmachine : (c.proceed j r).machine = machine := congrArg Prod.snd hnext
          by_cases hreply : phase.Replies
          · -- the receive has seen the queue empty
            obtain ⟨rest, hwire, hrest⟩ := hsound.books
            rw [hmachine, hlast hreply, List.map_eq_nil_iff] at hrest
            rw [hrest, List.append_nil] at hwire
            have hlength := congrArg List.length hwire
            rw [List.length_map] at hlength
            exact .inl hlength.le
          · refine .inr ⟨⟨?_, fun t ht => ?_⟩, s, hi, hwaits⟩
            · rw [hmachine]
              rcases hsame with hno | hsame
              · exact absurd hno (hreplies r (List.mem_of_getElem? hj))
              · exact hsame.trans hback
            · obtain ⟨k, hk⟩ := List.mem_iff_getElem?.mp ht
              rcases getElem?_set_cases hk with ⟨-, hold⟩ | ⟨-, rfl⟩
              · exact hreplies t (List.mem_of_getElem? hold)
              · show ¬ (r.phase.next r.socket r.link c.machine).1.Replies
                rw [hphase]
                exact hreply
  | elsewhere _ _ _ hsame => exact .inr ⟨⟨hsame.trans hback, hreplies⟩, s, hi, hwaits⟩

/-- From a quiet moment on, either all that was on the way then has been taken off it, or the send
still waits. -/
theorem pending_reaches (hK : Kernel.Duplex a b up queue back) (hT : Kernel.TakesSome K)
    (h : Sound a b up queue c) (hs : Reaches a b up queue back c c') (hp : c.Pending back i) :
    c.wire <+: c'.wire ∧ (c.wire.length ≤ c'.taken.length ∨ c'.Pending back i) := by
  induction hs with
  | refl => exact ⟨List.prefix_refl _, .inr hp⟩
  | tail hreach hstep ih =>
      obtain ⟨hwire, htaken⟩ := grows_step hstep
      obtain ⟨hbegins, hcases⟩ := ih
      refine ⟨hbegins.trans hwire, ?_⟩
      rcases hcases with hall | hpending
      · exact .inl (hall.trans htaken.length_le)
      · refine (pending_step hK hT (sound_reaches hK hT h hreach) hstep hpending).imp_left ?_
        exact hbegins.length_le.trans

theorem send_reaches (hs : Reaches a b up queue back c c') (hi : c.sends[i]? = some s) :
    ∃ s', c'.sends[i]? = some s' ∧ s'.payload = s.payload ∧ s'.options = s.options := by
  induction hs with
  | refl => exact ⟨s, hi, rfl, rfl⟩
  | tail _ hstep ih =>
      obtain ⟨s', hi', hpayload, hoptions⟩ := ih
      obtain ⟨s'', hi'', hpayload', hoptions'⟩ := send_step hstep hi'
      exact ⟨s'', hi'', hpayload'.trans hpayload, hoptions'.trans hoptions⟩

/-- **What an acknowledgement tells.** A send waits for its reply at a quiet moment. If it comes to
succeed, every octet of its payload was taken by some receive; and what a receive has taken that
has completed, it has returned. -/
theorem acknowledged_read (hK : Kernel.Duplex a b up queue back) (hT : Kernel.TakesSome K)
    {m : Machine K} (hup : up m.kernel) (hproper : ∀ q ∈ m.quotas, q.fraction.IsProper)
    (hempty : queue m.kernel = []) (h₁ : Reaches a b up queue back (opening m) c₁)
    (hquiet : c₁.Quiet back) {s₁ s₂ : Sending} {report₁ report₂ : SendReport}
    (hi₁ : c₁.sends[i]? = some s₁) (hawaits : s₁.phase = .awaiting report₁)
    (h₂ : Reaches a b up queue back c₁ c₂) (hi₂ : c₂.sends[i]? = some s₂)
    (hended : s₂.phase = .ended (.ok report₂)) :
    octetsOf i (c₂.taken.map Prod.snd) = s₂.payload.carried s₂.options.pass
      ∧ ∀ t ∈ c₂.taken, ∃ r, c₂.receives[t.1]? = some r
          ∧ ∀ data, r.phase = .ended (.ok data) → takenBy t.1 c₂.taken = data := by
  have hsound₁ := sound_reaches hK hT
    (sound_opening hup (Machine.proper_of_fractions hproper) hempty) h₁
  have hsound₂ := sound_reaches hK hT hsound₁ h₂
  refine ⟨?_, fun t ht => ?_⟩
  · have hpending : c₁.Pending back i := ⟨hquiet, s₁, hi₁, by rw [hawaits]; trivial⟩
    obtain ⟨⟨more, hmore⟩, hcases⟩ := pending_reaches hK hT hsound₁ h₂ hpending
    -- the send has succeeded, so it waits no longer
    have hall : c₁.wire.length ≤ c₂.taken.length := by
      rcases hcases with hall | ⟨-, s, hi, hwaits⟩
      · exact hall
      · obtain rfl : s₂ = s := Option.some.inj (hi₂.symm.trans hi)
        rw [hended] at hwaits
        exact hwaits.elim
    obtain ⟨s, hi, hpayload, hoptions⟩ := send_reaches h₂ hi₁
    obtain rfl : s₂ = s := Option.some.inj (hi₂.symm.trans hi)
    -- all of the payload was on the way at the quiet moment
    have hout₁ : octetsOf i c₁.wire = s₁.payload.carried s₁.options.pass := by
      have hfits := (hsound₁.sends i s₁ hi₁).2
      rw [hawaits] at hfits
      exact hfits
    have hout₂ : octetsOf i c₂.wire = s₂.payload.carried s₂.options.pass := by
      have hfits := (hsound₂.sends i s₂ hi₂).2
      rw [hended] at hfits
      exact hfits
    have hnone : octetsOf i more = [] := by
      rw [← hmore, octetsOf_append, hout₁, hpayload, hoptions] at hout₂
      exact List.append_right_eq_self.mp hout₂
    obtain ⟨rest, hwire, -⟩ := hsound₂.books
    obtain ⟨early, hearly⟩ : rest <:+ more := by
      refine List.suffix_of_suffix_length_le (hwire ▸ List.suffix_append _ _)
        (hmore ▸ List.suffix_append _ _) ?_
      have hlength := congrArg List.length (hmore.trans hwire)
      rw [List.length_append, List.length_append, List.length_map] at hlength
      omega
    have hrest : octetsOf i rest = [] := by
      rw [← hearly, octetsOf_append] at hnone
      exact (List.append_eq_nil_iff.mp hnone).2
    rw [hwire, octetsOf_append, hrest, List.append_nil] at hout₂
    exact hout₂
  · have hlt := hsound₂.known.2 t ht
    refine ⟨_, List.getElem?_eq_getElem hlt, fun data hdata => ?_⟩
    obtain ⟨-, -, htaken⟩ := hsound₂.receives t.1 _ (List.getElem?_eq_getElem hlt)
    rw [hdata] at htaken
    exact htaken id

/-- The next steps of a send, as many. -/
def advances (i : Nat) : Nat → Exchange K → Exchange K
  | 0, c => c
  | n + 1, c => advances i n ((c.sends[i]?.map (c.advance i)).getD c)

/-- The next steps of a receive, as many. -/
def proceeds (j : Nat) : Nat → Exchange K → Exchange K
  | 0, c => c
  | n + 1, c => proceeds j n ((c.receives[j]?.map (c.proceed j)).getD c)

theorem reaches_advances (i n : Nat) (c : Exchange K) :
    Reaches a b up queue back c (c.advances i n) := by
  induction n generalizing c with
  | zero => exact .refl
  | succ n ih =>
      unfold advances
      cases hi : c.sends[i]? with
      | none => exact ih c
      | some s => exact .head (.advance c hi) (ih _)

theorem reaches_proceeds (j n : Nat) (c : Exchange K) :
    Reaches a b up queue back c (c.proceeds j n) := by
  induction n generalizing c with
  | zero => exact .refl
  | succ n ih =>
      unfold proceeds
      cases hj : c.receives[j]? with
      | none => exact ih c
      | some r => exact .head (.proceed c hj) (ih _)

/-- A stream of the host on which a send has put its octet on the way and waits. -/
def waiting : Exchange Host :=
  ((opening (Machine.start Host.pair)).begin (.single [1]) ⟨0, none⟩ true
    ⟨0, none, 0, .stream⟩).advances 0 2

/-- The octet was received, and the reply has come. -/
def answered : Exchange Host :=
  ((waiting.receive (Socket.answeringEnd 1) ⟨1, none, 1, .stream⟩).proceeds 0 3).advances 0 1

/-- A state that the ends of the host's stream may come to. -/
abbrev PairReaches (c c' : Exchange Host) : Prop :=
  Reaches 0 1 (Host.Linked 0 1) (Host.inboxOctets 1) (Host.inboxOctets 0) c c'

theorem reaches_waiting : PairReaches (opening (Machine.start Host.pair)) waiting :=
  .trans (.single (.begin _ _ _ _ rfl rfl)) (reaches_advances 0 2 _)

theorem reaches_answered : PairReaches waiting answered :=
  .trans (.single (.receive _ rfl rfl (by decide) rfl))
    (.trans (reaches_proceeds 0 3 _) (reaches_advances 0 1 _))

theorem quiet_waiting : waiting.Quiet (Host.inboxOctets 0) where
  back := rfl
  replies r hr := by
    rw [show waiting.receives = [] from rfl] at hr
    exact absurd hr (by simp)

theorem acknowledged_read_answered :
    octetsOf 0 (answered.taken.map Prod.snd) = [1]
      ∧ ∀ t ∈ answered.taken, ∃ r, answered.receives[t.1]? = some r
          ∧ ∀ data, r.phase = .ended (.ok data) → takenBy t.1 answered.taken = data := by
  have hwaits : waiting.sends[0]?
      = some ⟨.single [1], ⟨0, none⟩, ⟨0, none, 0, .stream⟩, true, .awaiting ⟨1, 1, 1⟩⟩ := rfl
  have hended : answered.sends[0]?
      = some ⟨.single [1], ⟨0, none⟩, ⟨0, none, 0, .stream⟩, true, .ended (.ok ⟨1, 1, 1⟩)⟩ := rfl
  have hproper : ∀ q ∈ (Machine.start Host.pair).quotas, q.fraction.IsProper := by
    simp [Machine.start]
  exact acknowledged_read (Host.duplex 0 1) Host.takesSome Host.linked_pair hproper rfl
    reaches_waiting quiet_waiting hwaits rfl reaches_answered hended rfl

/-- An asynchronous send was received and replied to; then a synchronous one takes that reply for
its own. -/
def stale : Exchange Host :=
  let sent := ((opening (Machine.start Host.pair)).begin (.single [1]) ⟨0, none⟩ false
    ⟨0, none, 0, .stream⟩).advances 0 2
  let received := (sent.receive (Socket.answeringEnd 1) ⟨1, none, 1, .stream⟩).proceeds 0 3
  (received.begin (.single [2]) ⟨0, none⟩ true ⟨0, none, 0, .stream⟩).advances 1 3

theorem reaches_stale : PairReaches (opening (Machine.start Host.pair)) stale :=
  .trans (.trans (.single (.begin _ _ _ _ rfl rfl)) (reaches_advances 0 2 _))
    (.trans (.trans (.single (.receive _ rfl rfl (by decide) rfl)) (reaches_proceeds 0 3 _))
      (.trans (.single (.begin _ _ _ _ rfl rfl)) (reaches_advances 1 3 _)))

/-- **A send may succeed before anybody has read its payload.** The only receive there was has
returned another send's. -/
theorem stale_unread :
    PairReaches (opening (Machine.start Host.pair)) stale
      ∧ (∃ s, stale.sends[1]? = some s ∧ s.synchronous = true ∧ s.payload = .single [2]
          ∧ s.phase = .ended (.ok ⟨1, 1, 1⟩))
      ∧ (∃ r, stale.receives = [r] ∧ r.socket.acknowledge = true ∧ r.phase = .ended (.ok [1]))
      ∧ octetsOf 1 (stale.taken.map Prod.snd) = []
      ∧ Host.inboxOctets 1 stale.machine.kernel = [2] :=
  ⟨reaches_stale, ⟨_, rfl, rfl, rfl, rfl⟩, ⟨_, rfl, rfl, rfl⟩, by decide +kernel,
    by decide +kernel⟩

end Exchange

end PacedNet
