import PacedNet.Proofs.Socket.Channel
import Mathlib.Data.List.Basic
import Mathlib.Logic.Relation

/-!
# Transfers and receives, step by step

While a transfer is on its way others do theirs, and so while a receive is. What one of them does
between two looks at the kernel is a step: a round of a transfer, the wait for its reply, a chunk
of a receive, a look whether there is more, the reply. The steps of one that nobody comes between
are what it does in one piece (`Carriage.runs_run`, `Receipt.runs_receiveData`).

A step puts some of what is left on the way, or takes some of what lies there. It leaves the reply
to others, except for the one that sends it and the one that waits for it.
-/

namespace PacedNet

variable {K : Type}

/-- How far a transfer of a stream has come. -/
inductive Carriage where
  /-- That is left of the wire. -/
  | carrying (pass : Option OpenFile) (report : SendReport) (rest : List UInt8)
  /-- All of the wire is out, and the reply is waited for. -/
  | awaiting (report : SendReport)
  | ended (answer : Except Failure SendReport)

/-- How far a receive of a stream has come, with what it has read. -/
inductive Receipt where
  /-- It waits for its first chunk. -/
  | reading
  /-- It looks whether there is more. -/
  | looking (read : List UInt8)
  /-- There is more, and it takes a chunk. -/
  | taking (read : List UInt8)
  /-- There was no more, and it replies. -/
  | replying (read : List UInt8)
  | ended (answer : Except Failure (List UInt8))

namespace Carriage

/-- A transfer before its first round. -/
def start (parcel : Parcel) : Carriage :=
  carrying parcel.pass ⟨parcel.payloadBytes, 0, 0⟩ (Transfer.streamWire parcel)

/-- A transfer whose wire is out. -/
def carried (acknowledge : Bool) (report : SendReport) : Carriage :=
  if acknowledge then awaiting report else ended (.ok report)

/-- The octets that a step has put on the way. -/
def sent : Carriage → Carriage → List UInt8
  | carrying _ _ rest, carrying _ _ left => rest.take (rest.length - left.length)
  | _, _ => []

/-- What is out of a wire is as much as the transfer says. -/
def Fits (wire out : List UInt8) : Carriage → Prop
  | carrying _ _ rest => out ++ rest = wire
  | awaiting _ => out = wire
  | ended (.ok _) => out = wire
  | ended (.error _) => out <+: wire

/-- A transfer that waits for its reply, or did so in vain. -/
def Waits : Carriage → Prop
  | awaiting _ => True
  | ended (.error _) => True
  | _ => False

theorem Fits.prefix {wire out : List UInt8} {c : Carriage} (h : c.Fits wire out) :
    out <+: wire := by
  cases c with
  | carrying pass report rest => exact ⟨rest, h⟩
  | awaiting report =>
      have hout : out = wire := h
      exact hout ▸ List.prefix_refl _
  | ended answer =>
      cases answer with
      | ok report =>
          have hout : out = wire := h
          exact hout ▸ List.prefix_refl _
      | error e => exact h

theorem fits_carried {wire : List UInt8} (acknowledge : Bool) (report : SendReport) :
    (carried acknowledge report).Fits wire wire := by
  cases acknowledge <;> rfl

/-- Where a round leads that was offered the rest of a wire. -/
def afterRound (acknowledge : Bool) (report : SendReport) (rest : List UInt8) :
    Except Failure Nat → Carriage
  | .error e => ended (.error e)
  | .ok sent =>
    let report := { report with wireBytes := report.wireBytes + sent, chunks := report.chunks + 1 }
    if sent = 0 then carried acknowledge report else carrying none report (rest.drop sent)

/-- Where the wait for a reply leads. -/
def afterReply (report : SendReport) : Except Failure Unit → Carriage
  | .error e => ended (.error e)
  | .ok _ => ended (.ok report)

/-- Where the rounds of a stream lead. -/
def afterStream (acknowledge : Bool) : Except Failure SendReport → Carriage
  | .error e => ended (.error e)
  | .ok report => carried acknowledge report

variable [Kernel K]

/-- One step of a transfer. -/
def next (link : Link) (flags : Nat) (acknowledge : Bool) (c : Carriage) (m : Machine K) :
    Carriage × Machine K :=
  match c with
  | carrying _ report [] => (carried acknowledge report, m)
  | carrying pass report (b :: tail) =>
    let (r, m) := (Transfer.round link flags pass (b :: tail)).run m
    (afterRound acknowledge report (b :: tail) r, m)
  | awaiting report =>
    let (r, m) := (Transfer.awaitReply link).run m
    (afterReply report r, m)
  | ended answer => (ended answer, m)

/-- Steps that come after each other. -/
abbrev Runs (link : Link) (flags : Nat) (acknowledge : Bool)
    (x y : Carriage × Machine K) : Prop :=
  Relation.ReflTransGen (fun x y => x.1.next link flags acknowledge x.2 = y) x y

variable {a b : Descriptor} {up : K → Prop} {queue back : K → List UInt8} {m m' : Machine K}
  {link : Link} {flags : Nat} {acknowledge : Bool} {c c' : Carriage}

theorem next_round (acknowledge : Bool) {pass : Option OpenFile} (report : SendReport)
    {octet : UInt8} {tail : List UInt8} {r : Except Failure Nat}
    (h : (Transfer.round link flags pass (octet :: tail)).run m = (r, m')) :
    (carrying pass report (octet :: tail)).next link flags acknowledge m
      = (afterRound acknowledge report (octet :: tail) r, m') := by
  rw [next, h]

theorem next_reply {report : SendReport} {r : Except Failure Unit}
    (h : (Transfer.awaitReply link).run m = (r, m')) :
    (awaiting report).next link flags acknowledge m = (afterReply report r, m') := by
  rw [next, h]

/-- A round that sent something leaves the rest. -/
theorem sent_afterRound (acknowledge : Bool) (pass : Option OpenFile) (report : SendReport)
    {rest : List UInt8} {sent : Nat} (hpos : 0 < sent) (hle : sent ≤ rest.length) :
    (carrying pass report rest).sent (afterRound acknowledge report rest (.ok sent))
        = rest.take sent
      ∧ ∀ wire out, (carrying pass report rest).Fits wire out →
          (afterRound acknowledge report rest (.ok sent)).Fits wire (out ++ rest.take sent) := by
  unfold afterRound
  dsimp only
  rw [if_neg (by omega)]
  refine ⟨?_, fun wire out hfits => ?_⟩
  · show rest.take (rest.length - (rest.drop sent).length) = rest.take sent
    rw [List.length_drop, Nat.sub_sub_self hle]
  · show (out ++ rest.take sent) ++ rest.drop sent = wire
    rw [List.append_assoc, List.take_append_drop]
    exact hfits

/-- **One step of a transfer**: what it has sent goes on the way, and the transfer has so much more
of its wire out. -/
theorem next_spec (hK : Kernel.Duplex a b up queue back) (hT : Kernel.TakesSome K)
    (hlink : link.descriptor = a) (hproper : m.Proper) (hup : up m.kernel)
    (h : c.next link flags acknowledge m = (c', m')) :
    m.Moves m' ∧ up m'.kernel ∧ queue m'.kernel = queue m.kernel ++ c.sent c'
      ∧ (back m.kernel = [] → back m'.kernel = [])
      ∧ ∀ wire out, c.Fits wire out → c'.Fits wire (out ++ c.sent c') := by
  cases c with
  | carrying pass report rest =>
      cases rest with
      | nil =>
          injection h with hc hm
          subst hc hm
          have hnone : (carrying pass report []).sent (carried acknowledge report) = [] := by
            cases acknowledge <;> rfl
          rw [hnone, List.append_nil]
          refine ⟨.refl m, hup, rfl, id, fun wire out hfits => ?_⟩
          obtain rfl : out = wire := (List.append_nil out).symm.trans hfits
          rw [List.append_nil]
          exact fits_carried acknowledge report
      | cons octet tail =>
          cases hround : (Transfer.round link flags pass (octet :: tail)).run m with
          | mk r m₁ =>
              obtain ⟨hmoves, hup', hback, hcases⟩ :=
                Transfer.run_round hK.there hT hlink hproper hup (by simp) hround
              rw [next_round acknowledge report hround] at h
              injection h with hc hm
              subst hc hm
              refine ⟨hmoves, hup', ?_⟩
              rw [hback]
              rcases hcases with ⟨⟨e, rfl⟩, hqueue⟩ | ⟨sent, rfl, hpos, hle, hqueue⟩
              · refine ⟨hqueue.trans (List.append_nil _).symm, id, fun wire out hfits => ?_⟩
                show out ++ [] <+: wire
                rw [List.append_nil]
                exact hfits.prefix
              · obtain ⟨hsent, hfits⟩ := sent_afterRound acknowledge pass report hpos hle
                rw [hsent]
                exact ⟨hqueue, id, hfits⟩
  | awaiting report =>
      cases hawait : (Transfer.awaitReply link).run m with
      | mk r m₁ =>
          obtain ⟨hmoves, hup', hqueue, hnone⟩ :=
            Transfer.run_awaitReply hK.back hlink hup hawait
          rw [next_reply hawait] at h
          injection h with hc hm
          subst hc hm
          refine ⟨hmoves, hup', hqueue.trans (List.append_nil _).symm,
            fun hnil => (hnone hnil).1, fun wire out hfits => ?_⟩
          show (afterReply report r).Fits wire (out ++ [])
          rw [List.append_nil]
          cases r with
          | error e => exact hfits.prefix
          | ok _ => exact hfits
  | ended answer =>
      injection h with hc hm
      subst hc hm
      refine ⟨.refl m, hup, (List.append_nil _).symm, id, fun wire out hfits => ?_⟩
      show (ended answer).Fits wire (out ++ [])
      rw [List.append_nil]
      exact hfits

/-- Where no reply is on its way, none comes. -/
theorem next_waits (hK : Kernel.Duplex a b up queue back) (hlink : link.descriptor = a)
    (hup : up m.kernel) (hback : back m.kernel = []) (hwaits : c.Waits)
    (h : c.next link flags acknowledge m = (c', m')) : c'.Waits := by
  cases c with
  | carrying _ _ _ => exact hwaits.elim
  | awaiting report =>
      cases hawait : (Transfer.awaitReply link).run m with
      | mk r m₁ =>
          obtain ⟨-, -, -, hnone⟩ := Transfer.run_awaitReply hK.back hlink hup hawait
          obtain ⟨-, e, rfl⟩ := hnone hback
          rw [next_reply hawait] at h
          injection h with hc _
          subst hc
          trivial
  | ended answer =>
      injection h with hc _
      subst hc
      exact hwaits

/-- The rounds of a stream. -/
theorem runs_stream {pass : Option OpenFile} {report : SendReport} {rest : List UInt8}
    {r : Except Failure SendReport}
    (h : (Transfer.stream link flags pass report rest).run m = (r, m')) :
    Runs link flags acknowledge (carrying pass report rest, m) (afterStream acknowledge r, m') := by
  -- each round leaves less to send
  induction hn : rest.length using Nat.strongRecOn generalizing pass report rest m with
  | ind n ih =>
      subst hn
      cases rest with
      | nil =>
          rw [Transfer.stream] at h
          injection h with hr hm
          subst hr hm
          exact .single rfl
      | cons octet tail =>
          rw [Transfer.stream] at h
          rcases run_bind h with ⟨sent, m₁, hround, h₁⟩ | ⟨e, hround, rfl⟩
          · have hnext := next_round acknowledge report hround
            unfold afterRound at hnext
            dsimp only at h₁ hnext
            by_cases hzero : sent = 0
            · rw [if_pos hzero] at h₁ hnext
              injection h₁ with hr hm
              subst hr hm
              exact .single hnext
            · rw [if_neg hzero] at h₁ hnext
              have hless : ((octet :: tail).drop sent).length < (octet :: tail).length := by
                rw [List.length_drop, List.length_cons]
                omega
              exact .head hnext (ih _ hless h₁ rfl)
          · exact .single (next_round acknowledge report hround)

/-- **The steps of a transfer that nobody comes between.** -/
theorem runs_run {parcel : Parcel} {r : Except Failure SendReport} (hkind : link.kind = .stream)
    (h : (Transfer.run link parcel acknowledge).run m = (r, m')) :
    Runs link parcel.flags acknowledge (start parcel, m) (ended r, m') := by
  unfold Transfer.run at h
  rw [hkind] at h
  rcases run_bind h with ⟨report, m₁, hstream, h₁⟩ | ⟨e, hstream, rfl⟩
  · refine (runs_stream hstream).trans ?_
    cases acknowledge with
    | false =>
        injection h₁ with hr hm
        subst hr hm
        exact .refl
    | true =>
        refine .single ?_
        rcases run_bind h₁ with ⟨⟨⟩, m₂, hawait, hreturn⟩ | ⟨e, hawait, rfl⟩
        · injection hreturn with hr hm
          subst hr hm
          exact next_reply hawait
        · exact next_reply hawait
  · exact runs_stream hstream

end Carriage

namespace Receipt

/-- What a receive has read; one that failed keeps nothing. -/
def read : Receipt → List UInt8
  | reading => []
  | looking read => read
  | taking read => read
  | replying read => read
  | ended (.ok data) => data
  | ended (.error _) => []

def Failed : Receipt → Prop
  | ended (.error _) => True
  | _ => False

def Replies : Receipt → Prop
  | replying _ => True
  | _ => False

/-- Where the first chunk of a receive leads. -/
def afterFirst : Except Failure Incoming → Receipt
  | .error e => ended (.error e)
  | .ok first =>
    if first.octets.isEmpty then ended (.error (.socket ⟨.read, .peerClosed⟩))
    else looking first.octets

/-- Where a look leads. -/
def afterLook (read : List UInt8) : Except Failure Bool → Receipt
  | .error e => ended (.error e)
  | .ok ready => if ready then taking read else replying read

/-- Where another chunk leads. -/
def afterChunk (read : List UInt8) : Except Failure Incoming → Receipt
  | .error e => ended (.error e)
  | .ok chunk => if chunk.octets.isEmpty then replying read else looking (read ++ chunk.octets)

/-- Where the reply leads. -/
def afterReply (read : List UInt8) : Except Failure Unit → Receipt
  | .error e => ended (.error e)
  | .ok _ => ended (.ok read)

/-- Where reading all that is there leads. -/
def afterDrain : Except Failure (List UInt8) → Receipt
  | .error e => ended (.error e)
  | .ok data => replying data

variable [Kernel K]

/-- One step of a receive. -/
def next (s : Socket) (link : Link) (c : Receipt) (m : Machine K) : Receipt × Machine K :=
  match c with
  | reading =>
    let (r, m) := (s.readChunkOf link).run m
    (afterFirst r, m)
  | looking read =>
    let (r, m) := (Socket.isReady link).run m
    (afterLook read r, m)
  | taking read =>
    let (r, m) := (s.readChunkOf link).run m
    (afterChunk read r, m)
  | replying read =>
    let (r, m) := (s.reply link).run m
    (afterReply read r, m)
  | ended answer => (ended answer, m)

/-- Steps that come after each other. -/
abbrev Runs (s : Socket) (link : Link) (x y : Receipt × Machine K) : Prop :=
  Relation.ReflTransGen (fun x y => x.1.next s link x.2 = y) x y

variable {a b : Descriptor} {up : K → Prop} {queue back : K → List UInt8} {m m' : Machine K}
  {s : Socket} {link : Link} {c c' : Receipt}

theorem next_reading {r : Except Failure Incoming} (h : (s.readChunkOf link).run m = (r, m')) :
    reading.next s link m = (afterFirst r, m') := by
  rw [next, h]

theorem next_looking (read : List UInt8) {r : Except Failure Bool}
    (h : (Socket.isReady link).run m = (r, m')) :
    (looking read).next s link m = (afterLook read r, m') := by
  rw [next, h]

theorem next_taking (read : List UInt8) {r : Except Failure Incoming}
    (h : (s.readChunkOf link).run m = (r, m')) :
    (taking read).next s link m = (afterChunk read r, m') := by
  rw [next, h]

theorem next_replying (read : List UInt8) {r : Except Failure Unit}
    (h : (s.reply link).run m = (r, m')) :
    (replying read).next s link m = (afterReply read r, m') := by
  rw [next, h]

/-- **One step of a receive**: what it has taken comes from the front of the queue. It comes to
reply only where nothing is left, and adds nothing the other way except by replying. -/
theorem next_spec (hK : Kernel.Duplex a b up queue back) (hlink : link.descriptor = b)
    (hchunk : 0 < s.readChunk) (hproper : m.Proper) (hup : up m.kernel)
    (h : c.next s link m = (c', m')) :
    m.Moves m' ∧ up m'.kernel
      ∧ (∃ got, queue m.kernel = got ++ queue m'.kernel
        ∧ got.length = c'.read.length - c.read.length
        ∧ (¬ c'.Failed → ¬ c.Failed ∧ c'.read = c.read ++ got))
      ∧ (c'.Replies → queue m'.kernel = [])
      ∧ (c.Replies ∨ back m'.kernel = back m.kernel) := by
  cases c with
  | reading =>
      cases hread : (s.readChunkOf link).run m with
      | mk r m₁ =>
          obtain ⟨hmoves, hup', hback, hcases⟩ :=
            Socket.run_readChunk hK.there hlink hchunk hproper hup hread
          rw [next_reading hread] at h
          injection h with hc hm
          subst hc hm
          refine ⟨hmoves, hup', ?_⟩
          rcases hcases with ⟨⟨e, rfl⟩, hqueue⟩ | ⟨got, rfl, hqueue, -⟩
          · exact ⟨⟨[], hqueue.symm, rfl, fun hno => (hno trivial).elim⟩, False.elim, .inr hback⟩
          · by_cases hnil : got.octets = []
            · rw [hnil] at hqueue
              have hfailed : afterFirst (.ok got)
                  = ended (.error (.socket ⟨.read, .peerClosed⟩)) := if_pos (by simp [hnil])
              rw [hfailed]
              exact ⟨⟨[], hqueue, rfl, fun hno => (hno trivial).elim⟩, False.elim, .inr hback⟩
            · have hlooks : afterFirst (.ok got) = looking got.octets :=
                if_neg (by simpa using hnil)
              rw [hlooks]
              exact ⟨⟨got.octets, hqueue, rfl, fun _ => ⟨id, rfl⟩⟩, False.elim, .inr hback⟩
  | looking read =>
      cases hlook : (Socket.isReady link).run m with
      | mk r m₁ =>
          obtain ⟨hmoves, hup', hback, hqueue, ready, rfl, hnone⟩ :=
            Socket.run_look hK.there hlink hup hlook
          rw [next_looking read hlook] at h
          injection h with hc hm
          subst hc hm
          refine ⟨hmoves, hup', ?_⟩
          cases ready with
          | true =>
              exact ⟨⟨[], hqueue.symm, by simp [afterLook, Receipt.read],
                fun _ => ⟨id, (List.append_nil read).symm⟩⟩, False.elim, .inr hback⟩
          | false =>
              exact ⟨⟨[], hqueue.symm, by simp [afterLook, Receipt.read],
                fun _ => ⟨id, (List.append_nil read).symm⟩⟩,
                fun _ => hqueue.trans (hnone rfl), .inr hback⟩
  | taking read =>
      cases hread : (s.readChunkOf link).run m with
      | mk r m₁ =>
          obtain ⟨hmoves, hup', hback, hcases⟩ :=
            Socket.run_readChunk hK.there hlink hchunk hproper hup hread
          rw [next_taking read hread] at h
          injection h with hc hm
          subst hc hm
          refine ⟨hmoves, hup', ?_⟩
          rcases hcases with ⟨⟨e, rfl⟩, hqueue⟩ | ⟨got, rfl, hqueue, hempty⟩
          · exact ⟨⟨[], hqueue.symm, (Nat.zero_sub _).symm, fun hno => (hno trivial).elim⟩,
              False.elim, .inr hback⟩
          · by_cases hnil : got.octets = []
            · have hall := hempty hnil
              rw [hnil] at hqueue
              have hreplies : afterChunk read (.ok got) = replying read := if_pos (by simp [hnil])
              rw [hreplies]
              exact ⟨⟨[], hqueue, (Nat.sub_self _).symm,
                  fun _ => ⟨id, (List.append_nil read).symm⟩⟩,
                fun _ => (List.nil_append _).symm.trans (hqueue.symm.trans hall), .inr hback⟩
            · have hlooks : afterChunk read (.ok got) = looking (read ++ got.octets) :=
                if_neg (by simpa using hnil)
              rw [hlooks]
              exact ⟨⟨got.octets, hqueue, by simp [Receipt.read], fun _ => ⟨id, rfl⟩⟩, False.elim,
                .inr hback⟩
  | replying read =>
      cases hreply : (s.reply link).run m with
      | mk r m₁ =>
          obtain ⟨hmoves, hup', hqueue⟩ := Socket.run_reply hK.back hlink hup hreply
          rw [next_replying read hreply] at h
          injection h with hc hm
          subst hc hm
          refine ⟨hmoves, hup', ?_, ?_, .inl trivial⟩
          · cases r with
            | error e =>
                exact ⟨[], hqueue.symm, (Nat.zero_sub _).symm, fun hno => (hno trivial).elim⟩
            | ok _ =>
                exact ⟨[], hqueue.symm, (Nat.sub_self _).symm,
                  fun _ => ⟨id, (List.append_nil read).symm⟩⟩
          · cases r <;> exact False.elim
  | ended answer =>
      injection h with hc hm
      subst hc hm
      exact ⟨.refl m, hup, ⟨[], rfl, (Nat.sub_self _).symm,
        fun hno => ⟨hno, (List.append_nil _).symm⟩⟩,
        False.elim, .inr rfl⟩

/-- Reading all that is there. -/
theorem runs_drain (hK : Kernel.Duplex a b up queue back) (hlink : link.descriptor = b)
    (hchunk : 0 < s.readChunk) (hproper : m.Proper) (hup : up m.kernel) {bound : Nat}
    (hbound : (queue m.kernel).length < bound) {read : List UInt8}
    {r : Except Failure (List UInt8)} (h : (s.drain link bound read).run m = (r, m')) :
    Runs s link (looking read.reverse, m) (afterDrain r, m') := by
  induction bound generalizing m read with
  | zero => exact absurd hbound (Nat.not_lt_zero _)
  | succ bound ih =>
      unfold Socket.drain at h
      rcases run_bind h with ⟨ready, m₁, hready, h₁⟩ | ⟨e, hready, rfl⟩
      · obtain ⟨hmoves, hup₁, -, hqueue, -⟩ := Socket.run_look hK.there hlink hup hready
        have hlook := next_looking (s := s) read.reverse hready
        cases ready with
        | false =>
            injection h₁ with hr hm
            subst hr hm
            exact .single hlook
        | true =>
            refine .head hlook ?_
            rcases run_bind h₁ with ⟨chunk, m₂, hread, h₂⟩ | ⟨e, hread, rfl⟩
            · obtain ⟨hmoves₂, hup₂, -, hcases⟩ :=
                Socket.run_readChunk hK.there hlink hchunk (hmoves.proper hproper) hup₁ hread
              have hchunked := next_taking read.reverse hread
              obtain ⟨⟨e, he⟩, -⟩ | ⟨got, hgot, hqueue₂, -⟩ := hcases
              · exact absurd he (by simp)
              · injection hgot with hgot
                subst hgot
                by_cases hnil : chunk.octets = []
                · rw [if_pos (by simp [hnil])] at h₂
                  injection h₂ with hr hm
                  subst hr hm
                  rw [show afterChunk read.reverse (.ok chunk) = replying read.reverse from
                    if_pos (by simp [hnil])] at hchunked
                  exact .single hchunked
                · rw [if_neg (by simpa using hnil)] at h₂
                  rw [show afterChunk read.reverse (.ok chunk)
                    = looking (read.reverse ++ chunk.octets) from
                      if_neg (by simpa using hnil)] at hchunked
                  -- the chunk has shortened the queue
                  have hless : (queue m₂.kernel).length < bound := by
                    have hpos := List.length_pos_iff.mpr hnil
                    rw [← hqueue, hqueue₂, List.length_append] at hbound
                    omega
                  have hrest := ih (hmoves₂.proper (hmoves.proper hproper)) hup₂ hless h₂
                  rw [List.reverse_append, List.reverse_reverse] at hrest
                  exact .head hchunked hrest
            · exact .single (next_taking read.reverse hread)
      · exact .single (next_looking read.reverse hready)

/-- **The steps of a receive that nobody comes between.** -/
theorem runs_receiveData (hK : Kernel.Duplex a b up queue back) (hreader : s.reader = .ok link)
    (hkind : s.kind = .stream) (hlink : link.descriptor = b) (hchunk : 0 < s.readChunk)
    (hproper : m.Proper) (hup : up m.kernel) {r : Except Failure (List UInt8)}
    (h : s.receiveData.run m = (r, m')) : Runs s link (reading, m) (ended r, m') := by
  unfold Socket.receiveData at h
  rw [hreader, hkind] at h
  change (do
      let first ← s.readChunkOf link
      let data ← if first.octets.isEmpty then Act.fail .read .peerClosed
        else s.drainAll link first.octets
      s.reply link
      return data : Act K (List UInt8)).run m = (r, m') at h
  have hreply : ∀ {m₁ : Machine K} {data : List UInt8},
      (do s.reply link; return data : Act K (List UInt8)).run m₁ = (r, m') →
      Runs s link (replying data, m₁) (ended r, m') := by
    intro m₁ data hrun
    rcases run_bind hrun with ⟨⟨⟩, m₂, hreply, hreturn⟩ | ⟨e, hreply, rfl⟩
    · injection hreturn with hr hm
      subst hr hm
      exact .single (next_replying data hreply)
    · exact .single (next_replying data hreply)
  rcases run_bind h with ⟨first, m₁, hfirst, h₁⟩ | ⟨e, hfirst, rfl⟩
  · obtain ⟨hmoves, hup₁, -, -⟩ := Socket.run_readChunk hK.there hlink hchunk hproper hup hfirst
    have hnext := next_reading hfirst
    unfold afterFirst at hnext
    dsimp only at hnext
    split at h₁
    · rename_i hnil
      rw [if_pos hnil] at hnext
      injection h₁ with hr hm
      subst hr hm
      exact .single hnext
    · rename_i hsome
      rw [if_neg hsome] at hnext
      refine .head hnext ?_
      have hwaiting := hK.there.waiting hup₁
      rw [← hlink] at hwaiting
      rcases run_bind h₁ with ⟨all, m₂, hmore, h₂⟩ | ⟨e, hmore, rfl⟩
      · have hdrain := runs_drain hK hlink hchunk (hmoves.proper hproper) hup₁
          (Nat.lt_succ_of_le hwaiting) hmore
        rw [List.reverse_reverse] at hdrain
        exact hdrain.trans (hreply h₂)
      · have hdrain := runs_drain hK hlink hchunk (hmoves.proper hproper) hup₁
          (Nat.lt_succ_of_le hwaiting) hmore
        rw [List.reverse_reverse] at hdrain
        exact hdrain
  · exact .single (next_reading hfirst)

end Receipt

end PacedNet
