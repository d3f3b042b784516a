import PacedNet.Proofs.Socket.Channel
import PacedNet.Proofs.Socket.Mail

/-!
# Descriptors on their way

A descriptor that is passed goes along with the first octets of its send. On a stream it is queued
with them, and a call that receives takes at most one: the one in front, if it comes to its octets
(`Kernel.Passing`). What each step of an operation adds to that queue and what it takes is
accounted for, so that none is lost in the stream (`Moment.Squares`); what a send as a whole has
handed over, and what a receive as a whole has got hold of, is read off its steps
(`Script.handles_transfer`, `Script.handles_receivePassed`).

A receive answers the first descriptor that it gets hold of. It goes on to read what is there
without asking for more, and whatever comes with that is gone.
-/

namespace PacedNet

variable {K : Type}

/-- The descriptors that a call took along which was to pass one. -/
def handedOver {ε : Type} (pass : Option OpenFile) : Except ε Nat → List OpenFile
  | .error _ => []
  | .ok _ => pass.toList

/-- The descriptors that came along with what a call received. -/
def cameAlong {ε : Type} : Except ε Incoming → List OpenFile
  | .error _ => []
  | .ok got => got.passed.toList

/-- While a stream from `a` to `b` is up, `files` are the descriptors on their way, in order. -/
structure Kernel.Passing [Kernel K] (a b : Descriptor) (up : K → Prop)
    (files : K → List OpenFile) : Prop where
  /-- A call that takes octets takes their descriptor along, and one that fails takes neither. -/
  send : ∀ {octets : List UInt8} {flags : Nat} {pass : Option OpenFile} {answer : Except Errno Nat}
    {k k' : K}, up k → octets ≠ [] → Kernel.send a octets flags pass k = (answer, k') →
    up k' ∧ files k' = files k ++ handedOver pass answer
  /-- A call takes the descriptor in front, or none. -/
  receive : ∀ {room : Nat} {answer : Except Errno Incoming} {k k' : K}, up k →
    Kernel.receive b room k = (answer, k') →
    up k' ∧ files k = cameAlong answer ++ files k'
  ready : ∀ {answer : Bool} {k k' : K}, up k → Kernel.ready b k = (answer, k') →
    up k' ∧ files k' = files k
  /-- What goes the other way is no matter. -/
  reply : ∀ {octets : List UInt8} {flags : Nat} {answer : Except Errno Nat} {k k' : K}, up k →
    octets ≠ [] → Kernel.send b octets flags none k = (answer, k') → up k' ∧ files k' = files k
  awaitReply : ∀ {room : Nat} {answer : Except Errno Incoming} {k k' : K}, up k →
    Kernel.receive a room k = (answer, k') → up k' ∧ files k' = files k

/-- The two sides of a stream. -/
inductive Side where
  | sending
  | receiving
deriving DecidableEq

namespace Side

def opposite : Side → Side
  | sending => receiving
  | receiving => sending

theorem opposite_eq {side side' : Side} (h : side ≠ side') : side.opposite = side' := by
  cases side <;> cases side' <;> first | rfl | exact absurd rfl h

/-- The descriptors that a step hands over at `a`, which are at the end of the queue after it, or
takes at `b`. -/
def passed (a b : Descriptor) (files : K → List OpenFile) : Side → Moment K → List OpenFile
  | sending, x =>
    match x.event with
    | .sent d _ (some _) =>
      if d = a then (files x.after.kernel).drop (files x.before.kernel).length else []
    | _ => []
  | receiving, x =>
    match x.event with
    | .received d _ (some got) => if d = b then got.passed.toList else []
    | _ => []

theorem passed_of_idle {x : Moment K} (h : x.event.Idle) (a b : Descriptor)
    (files : K → List OpenFile) (side : Side) : side.passed a b files x = [] := by
  obtain ⟨m, event, m'⟩ := x
  cases side with
  | sending =>
      rcases event with _ | _ | _ | ⟨d, octets, _ | taken⟩ | ⟨d, room, _ | got⟩ | _ | _ <;>
        first | rfl | exact h.elim
  | receiving =>
      rcases event with _ | _ | _ | ⟨d, octets, _ | taken⟩ | ⟨d, room, _ | got⟩ | _ | _ <;>
        first | rfl | exact h.elim

end Side

/-- What a step hands over goes to the end of the queue, and what it takes comes from the front. -/
def Moment.Squares (a b : Descriptor) (files : K → List OpenFile) (x : Moment K) : Prop :=
  files x.before.kernel ++ Side.sending.passed a b files x
    = Side.receiving.passed a b files x ++ files x.after.kernel

theorem Moment.squares_of_idle {a b : Descriptor} {files : K → List OpenFile} {x : Moment K}
    (h : x.event.Idle) (hfiles : files x.after.kernel = files x.before.kernel) :
    x.Squares a b files := by
  unfold Squares
  rw [Side.passed_of_idle h, Side.passed_of_idle h, hfiles, List.append_nil, List.nil_append]

namespace Script

variable {α β : Type} {a b : Descriptor} {up : K → Prop} {files : K → List OpenFile} {side : Side}

/-- Nothing is passed, and the answer is as `known` says. -/
def PassesNone (known : α → Prop) (more : List OpenFile) (answer : Except Failure α) : Prop :=
  more = [] ∧ ∀ x, answer = .ok x → known x

/-- What a script on one side of a stream passes: each step squares and does nothing of the other
side, and what all of them together pass is as `post` says of the answer. -/
def Handles (a b : Descriptor) (up : K → Prop) (files : K → List OpenFile) (side : Side)
    (post : List OpenFile → Except Failure α → Prop) (s : Script K α) : Prop :=
  ∀ seen, s.Keeps (fun m => up m.kernel ∧ m.Proper)
    (fun _ x => x.Squares a b files ∧ side.opposite.passed a b files x = [])
    (fun all answer => ∃ more, all.flatMap (side.passed a b files)
        = seen.flatMap (side.passed a b files) ++ more ∧ post more answer) seen

variable {post post' : List OpenFile → Except Failure α → Prop} {s : Script K α}

theorem Handles.mono (h : s.Handles a b up files side post)
    (hpost : ∀ more answer, post more answer → post' more answer) :
    s.Handles a b up files side post' :=
  fun seen => (h seen).mono fun _ answer ⟨more, hmore, hanswer⟩ =>
    ⟨more, hmore, hpost more answer hanswer⟩

theorem handles_ended {answer : Except Failure α} (h : post [] answer) :
    (ended answer : Script K α).Handles a b up files side post :=
  fun _ => ⟨[], (List.append_nil _).symm, h⟩

/-- One operation after the other. -/
theorem Handles.bind {f : α → Script K β} {post' : List OpenFile → Except Failure β → Prop}
    (h : s.Handles a b up files side post)
    (herror : ∀ more e, post more (.error e) → post' more (.error e))
    (hok : ∀ more x, post more (.ok x) →
      (f x).Handles a b up files side fun more' answer => post' (more ++ more') answer) :
    (s >>= f).Handles a b up files side post' := by
  refine fun seen => keeps_bind ((h seen).mono fun all answer hall => ?_)
  obtain ⟨more, hmore, hanswer⟩ := hall
  cases answer with
  | error e => exact ⟨more, hmore, herror more e hanswer⟩
  | ok x =>
      refine (hok more x hanswer all).mono fun all' answer' hall' => ?_
      obtain ⟨more', hmore', hanswer'⟩ := hall'
      refine ⟨more ++ more', ?_, hanswer'⟩
      rw [hmore', hmore, List.append_assoc]

/-- After an operation that passes nothing. -/
theorem Handles.bind_idle {f : α → Script K β} {post' : List OpenFile → Except Failure β → Prop}
    {known : α → Prop} (h : s.Handles a b up files side (PassesNone known))
    (herror : ∀ e, post' [] (.error e))
    (hok : ∀ x, known x → (f x).Handles a b up files side post') :
    (s >>= f).Handles a b up files side post' := by
  refine h.bind (fun more e hmore => ?_) fun more x hmore => ?_
  · obtain ⟨rfl, -⟩ := hmore
    exact herror e
  · obtain ⟨rfl, hknown⟩ := hmore
    exact hok x (hknown x rfl)

/-- One step: what it passes is as `post` says of its answer. -/
theorem handles_step {event : Machine K → Except Failure α → Event} {act : Act K α}
    (hact : ∀ m r m', up m.kernel → act.run m = (r, m') → m.Moves m' ∧ up m'.kernel
      ∧ Moment.Squares a b files ⟨m, event m r, m'⟩
      ∧ side.opposite.passed a b files ⟨m, event m r, m'⟩ = []
      ∧ post (side.passed a b files ⟨m, event m r, m'⟩) r) :
    (step event act).Handles a b up files side post := by
  refine fun seen => keeps_step fun m r m' hm h => ?_
  obtain ⟨hmoves, hup, hsquares, hother, hpost⟩ := hact m r m' hm.1 h
  refine ⟨⟨hup, hmoves.proper hm.2⟩, ⟨hsquares, hother⟩, _, ?_, hpost⟩
  rw [List.flatMap_append, List.flatMap_singleton]

/-- A step that passes nothing. -/
theorem handles_idle {event : Machine K → Except Failure α → Event} {act : Act K α}
    {known : α → Prop} (hidle : ∀ m r, (event m r).Idle)
    (hact : ∀ m r m', up m.kernel → act.run m = (r, m') → m.Moves m' ∧ up m'.kernel
      ∧ files m'.kernel = files m.kernel ∧ ∀ x, r = .ok x → known x) :
    (step event act).Handles a b up files side (PassesNone known) := by
  refine handles_step fun m r m' hm h => ?_
  obtain ⟨hmoves, hup, hfiles, hknown⟩ := hact m r m' hm h
  exact ⟨hmoves, hup, Moment.squares_of_idle (hidle m r) hfiles, Side.passed_of_idle (hidle m r) ..,
    Side.passed_of_idle (hidle m r) .., hknown⟩

/-! ## Asking a quota -/

theorem handles_paceWhole {stage : Stage} {quota : Option QuotaId} {bytes : Nat} :
    (paceWhole stage quota bytes : Script K Nat).Handles a b up files side
      (PassesNone fun n => n = bytes) := by
  refine handles_idle (fun m r => ?_) fun m r m' hup h => ?_
  · split <;> trivial
  · obtain ⟨hmoves, hkernel⟩ := Act.moves_pace (fun q now n => (q.reserve_spec now n).1) h
    rw [hkernel]
    refine ⟨hmoves, hup, rfl, fun n hn => ?_⟩
    rcases Act.run_pace_cases h with ⟨-, rfl, -⟩ | ⟨id, q, -, -, -, hgrant⟩
    · exact (Except.ok.inj hn).symm
    · rcases hgrant with ⟨-, rfl⟩ | ⟨-, rfl⟩ | ⟨k, wait, hgrant, rfl⟩
      · exact absurd hn (by simp)
      · exact absurd hn (by simp)
      · rw [← Except.ok.inj hn]
        exact (q.reserve_spec m.now bytes).2 k wait hgrant

/-- What may be asked for at once is something of anything. -/
theorem handles_size {quota : Option QuotaId} {bytes : Nat} :
    (size quota bytes : Script K Nat).Handles a b up files side
      (PassesNone fun n => 0 < bytes → 0 < n) := by
  intro seen m hm
  have hidle : ((quotaOf quota m).elim Event.quiet fun q => .sized q.burst).Idle := by
    cases quotaOf quota m <;> trivial
  refine ⟨hm, ⟨Moment.squares_of_idle hidle rfl, Side.passed_of_idle hidle ..⟩, [], ?_, rfl,
    fun n hn hbytes => ?_⟩
  · rw [List.flatMap_append, List.flatMap_singleton, Side.passed_of_idle hidle]
  · rw [← Except.ok.inj hn]
    cases hq : quotaOf quota m with
    | none => exact hbytes
    | some q =>
        obtain ⟨id, -, hid⟩ := Option.bind_eq_some_iff.mp hq
        have hburst := Quota.one_le_burst (hm.2 q (List.mem_of_getElem? hid))
        exact Nat.lt_min.mpr ⟨hbytes, hburst⟩

theorem handles_pace {stage : Stage} {quota : Option QuotaId} {bytes : Nat} :
    (pace stage quota bytes : Script K Nat).Handles a b up files side
      (PassesNone fun n => 0 < bytes → 0 < n) := by
  refine handles_size.bind_idle (fun e => ⟨rfl, by simp⟩) fun n hn => ?_
  refine handles_paceWhole.mono fun more answer hanswer => ?_
  exact ⟨hanswer.1, fun k hk hbytes => hanswer.2 k hk ▸ hn hbytes⟩

/-! ## The side that sends -/

variable [Kernel K]

theorem handles_send (hK : Kernel.Passing a b up files) {link : Link} (hlink : link.descriptor = a)
    {octets : List UInt8} (hne : octets ≠ []) {flags : Nat} {pass : Option OpenFile} :
    (send link octets flags pass : Script K Nat).Handles a b up files .sending
      fun more answer => more = handedOver pass answer := by
  subst hlink
  refine handles_step fun m r m' hm h => ?_
  obtain ⟨hmoves, ⟨errno, hsend, rfl⟩ | ⟨n, hsend, rfl⟩⟩ := Act.run_call_cases h
  · obtain ⟨hup, hfiles⟩ := hK.send hm hne hsend
    have hsame := hfiles.trans (List.append_nil _)
    exact ⟨hmoves, hup, Moment.squares_of_idle trivial hsame, rfl, rfl⟩
  · obtain ⟨hup, hfiles⟩ := hK.send hm hne hsend
    have hpassed : Side.sending.passed link.descriptor b files
        ⟨m, .sent link.descriptor octets (some n), m'⟩ = pass.toList := by
      show (if link.descriptor = link.descriptor then
        (files m'.kernel).drop (files m.kernel).length else []) = _
      rw [if_pos rfl, hfiles, List.drop_left]
      rfl
    exact ⟨hmoves, hup, (congrArg _ hpassed).trans hfiles.symm, rfl, hpassed⟩

omit [Kernel K] in
theorem handles_checkpoint (link : Link) :
    (checkpoint link : Script K Unit).Handles a b up files side
      (PassesNone fun _ => True) := by
  refine handles_idle (fun _ _ => trivial) fun m r m' hup h => ?_
  rw [Transfer.run_checkpoint h]
  exact ⟨.refl m, hup, rfl, by simp⟩

/-- **A round of a stream** hands its descriptor over if it succeeds. -/
theorem handles_round (hK : Kernel.Passing a b up files) {link : Link}
    (hlink : link.descriptor = a) {flags : Nat} {pass : Option OpenFile} {rest : List UInt8}
    (hne : rest ≠ []) : (round link flags pass rest : Script K Nat).Handles a b up files .sending
      fun more answer => more = handedOver pass answer := by
  refine (handles_checkpoint link).bind_idle (fun e => rfl) fun _ _ => ?_
  refine handles_pace.bind_idle (fun e => rfl) fun grant hgrant => ?_
  have hpos := hgrant (List.length_pos_iff.mpr hne)
  refine handles_send hK hlink ?_
  rw [Ne, List.take_eq_nil_iff, not_or]
  exact ⟨Nat.pos_iff_ne_zero.mp hpos, hne⟩

/-- What a transfer of these octets has handed over: its descriptor or, as long as it has not
succeeded, perhaps none. -/
def Rides (pass : Option OpenFile) (wire : List UInt8) (more : List OpenFile)
    (answer : Except Failure SendReport) : Prop :=
  (more = [] ∨ more = pass.toList) ∧ ∀ report, answer = .ok report → wire ≠ [] → more = pass.toList

theorem handles_stream (hK : Kernel.Passing a b up files) {link : Link}
    (hlink : link.descriptor = a) (flags : Nat) (pass : Option OpenFile) (report : SendReport)
    (rest : List UInt8) :
    (stream link flags pass report rest : Script K SendReport).Handles a b up files .sending
      (Rides pass rest) := by
  -- the descriptor rides on the first round, and nothing on those after it
  induction hn : rest.length using Nat.strongRecOn generalizing pass report rest with
  | ind n ih =>
      subst hn
      cases rest with
      | nil =>
          rw [stream]
          exact handles_ended ⟨.inl rfl, fun _ _ hno => absurd rfl hno⟩
      | cons octet tail =>
          rw [stream]
          refine (handles_round hK hlink (by simp)).bind (fun more e hmore => ?_)
            fun more sent hmore => ?_
          · exact ⟨.inl hmore, by simp⟩
          · obtain rfl : more = pass.toList := hmore
            split
            · exact handles_ended ⟨.inr (List.append_nil _), fun _ _ _ => List.append_nil _⟩
            · have hless : ((octet :: tail).drop sent).length < (octet :: tail).length := by
                rw [List.length_drop, List.length_cons]
                omega
              refine (ih _ hless none _ _ rfl).mono fun more answer hmore => ?_
              obtain rfl : more = [] := hmore.1.elim id id
              exact ⟨.inr (List.append_nil _), fun _ _ _ => List.append_nil _⟩

theorem handles_awaitReply (hK : Kernel.Passing a b up files) {link : Link}
    (hlink : link.descriptor = a) : (awaitReply link : Script K Unit).Handles a b up files .sending
      (PassesNone fun _ => True) := by
  subst hlink
  refine handles_idle (fun _ _ => trivial) fun m r m' hup h => ?_
  obtain ⟨hmoves, answer, hreceive⟩ := Transfer.call_of_awaitReply h
  obtain ⟨hup', hfiles⟩ := hK.awaitReply hup hreceive
  exact ⟨hmoves, hup', hfiles, by simp⟩

/-- **A transfer hands its descriptor over**, once and for all, if it succeeds. -/
theorem handles_transfer (hK : Kernel.Passing a b up files) {link : Link}
    (hlink : link.descriptor = a) (hkind : link.kind = .stream) (parcel : Parcel)
    (acknowledge : Bool) :
    (transfer link parcel acknowledge : Script K SendReport).Handles a b up files .sending
      fun more answer => (more = [] ∨ more = parcel.pass.toList)
        ∧ ∀ report, answer = .ok report → more = parcel.pass.toList := by
  have hwire : parcel.pass.toList = [] ∨ Transfer.streamWire parcel ≠ [] := by
    cases hpass : parcel.pass with
    | none => exact .inl rfl
    | some file =>
        right
        unfold Transfer.streamWire
        rw [hpass]
        cases parcel.wire <;> simp
  unfold transfer
  rw [hkind]
  refine (handles_stream hK hlink parcel.flags parcel.pass _ _).bind
    (fun more e hmore => ⟨hmore.1, by simp⟩) fun more report hmore => ?_
  have hall : more = parcel.pass.toList := by
    rcases hwire with hnone | hwire
    · exact hmore.1.elim (·.trans hnone.symm) id
    · exact hmore.2 report rfl hwire
  have hsame : more ++ [] = parcel.pass.toList := (List.append_nil _).trans hall
  split
  · refine (handles_awaitReply hK hlink).bind_idle (fun e => ⟨.inr hsame, by simp⟩) fun _ _ => ?_
    exact handles_ended ⟨.inr hsame, fun _ _ => hsame⟩
  · exact handles_ended ⟨.inr hsame, fun _ _ => hsame⟩

/-! ## The side that receives -/

theorem handles_receive (hK : Kernel.Passing a b up files) {room : Nat} :
    (receive b room : Script K Incoming).Handles a b up files .receiving
      fun more answer => more = cameAlong answer := by
  refine handles_step fun m r m' hm h => ?_
  obtain ⟨hmoves, ⟨errno, hreceive, rfl⟩ | ⟨got, hreceive, rfl⟩⟩ := Act.run_call_cases h
  · obtain ⟨hup, hfiles⟩ := hK.receive hm hreceive
    exact ⟨hmoves, hup, Moment.squares_of_idle trivial hfiles.symm, rfl, rfl⟩
  · obtain ⟨hup, hfiles⟩ := hK.receive hm hreceive
    have hpassed : Side.receiving.passed a b files ⟨m, .received b room (some got), m'⟩
        = got.passed.toList := if_pos rfl
    have hsquares := hfiles.trans (congrArg (· ++ _) hpassed.symm)
    exact ⟨hmoves, hup, (List.append_nil _).trans hsquares, rfl, hpassed⟩

theorem handles_readChunk (hK : Kernel.Passing a b up files) {link : Link}
    (hlink : link.descriptor = b) (s : Socket) :
    (readChunk s link : Script K Incoming).Handles a b up files .receiving
      fun more answer => more = cameAlong answer := by
  subst hlink
  exact handles_pace.bind_idle (fun _ => rfl) fun _ _ => handles_receive hK

theorem handles_reply (hK : Kernel.Passing a b up files) {link : Link}
    (hlink : link.descriptor = b) (s : Socket) :
    (reply s link : Script K Unit).Handles a b up files .receiving (PassesNone fun _ => True) := by
  subst hlink
  refine handles_idle (fun _ _ => trivial) fun m r m' hup h => ?_
  rcases Socket.call_of_reply h with rfl | ⟨hmoves, answer, hsend⟩
  · exact ⟨.refl _, hup, rfl, by simp⟩
  · obtain ⟨hup', hfiles⟩ := hK.reply hup (by simp) hsend
    exact ⟨hmoves, hup', hfiles, by simp⟩

theorem handles_look (hK : Kernel.Passing a b up files) {link : Link}
    (hlink : link.descriptor = b) : (look link : Script K Bool).Handles a b up files .receiving
      (PassesNone fun _ => True) := by
  subst hlink
  refine handles_idle (fun _ _ => trivial) fun m r m' hup h => ?_
  injection h with _ hm
  subst hm
  obtain ⟨hup', hfiles⟩ := hK.ready hup rfl
  exact ⟨m.moves_kernel _, hup', hfiles, by simp⟩

theorem handles_bound (link : Link) (more : Nat) :
    (bound link more : Script K Nat).Handles a b up files side (PassesNone fun _ => True) := by
  have hask : (step (fun _ _ => .quiet) (Act.ask (Kernel.waiting link.descriptor)) :
      Script K Nat).Handles a b up files side (PassesNone fun _ => True) := by
    refine handles_idle (fun _ _ => trivial) fun m r m' hup h => ?_
    injection h with _ hm
    subst hm
    exact ⟨.refl m, hup, rfl, by simp⟩
  exact hask.bind_idle (fun _ => ⟨rfl, by simp⟩) fun _ _ => handles_ended ⟨rfl, by simp⟩

/-- Reading on may come to any descriptors. -/
theorem handles_drain (hK : Kernel.Passing a b up files) {link : Link}
    (hlink : link.descriptor = b) (s : Socket) (bound : Nat) (read : List UInt8) :
    (drain s link bound read : Script K (List UInt8)).Handles a b up files .receiving
      fun _ _ => True := by
  induction bound generalizing read with
  | zero => exact handles_ended trivial
  | succ bound ih =>
      refine (handles_look hK hlink).bind_idle (fun _ => trivial) fun ready _ => ?_
      split
      · refine (handles_readChunk hK hlink s).bind (fun _ _ _ => trivial) fun _ chunk _ => ?_
        split
        · exact handles_ended trivial
        · exact ih _
      · exact handles_ended trivial

theorem handles_drainAll (hK : Kernel.Passing a b up files) {link : Link}
    (hlink : link.descriptor = b) (s : Socket) (more : Nat) (data : List UInt8) :
    (drainAll s link more data : Script K (List UInt8)).Handles a b up files .receiving
      fun _ _ => True :=
  (handles_bound link more).bind_idle (fun _ => trivial) fun _ _ => handles_drain hK hlink s _ _

/-- **A receive answers the first descriptor that it gets hold of.** -/
theorem handles_receivePassed (hK : Kernel.Passing a b up files) {s : Socket}
    (hd : s.descriptor = some b) (hkind : s.kind = .stream) (more : Nat) :
    (receivePassed s more : Script K (List UInt8 × OpenFile)).Handles a b up files .receiving
      fun more answer => ∀ data file, answer = .ok (data, file) →
        ∃ dropped, more = file :: dropped := by
  have hend (got : List UInt8 × OpenFile) (dropped : List OpenFile) : (do
      reply s ⟨b, s.quota, s.number, s.kind⟩
      return got : Script K (List UInt8 × OpenFile)).Handles a b up files .receiving
        fun more answer => ∀ data file, answer = .ok (data, file) →
          ∃ dropped', got.2 :: dropped ++ more = file :: dropped' := by
    refine (handles_reply hK rfl s).bind_idle (by simp) fun _ _ => handles_ended ?_
    intro data file hgot
    exact ⟨dropped, by rw [List.append_nil, Except.ok.inj hgot]⟩
  unfold receivePassed
  cases hlink : s.reader with
  | error e => exact handles_ended (by simp)
  | ok link =>
      obtain rfl := Socket.link_eq_ok hd hlink
      rw [hkind]
      refine (handles_readChunk hK rfl s).bind (by simp) fun got first hgot => ?_
      obtain rfl : got = first.passed.toList := hgot
      dsimp only
      cases first.passed with
      | none => exact handles_ended (by simp)
      | some file =>
          refine (handles_drainAll hK rfl s more _).bind (by simp) fun dropped data _ => ?_
          rw [← hkind]
          exact hend (data, file) dropped

end Script

end PacedNet
