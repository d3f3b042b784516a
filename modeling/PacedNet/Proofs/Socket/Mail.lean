import PacedNet.Proofs.Socket.Interleaving
import PacedNet.Proofs.Socket.Sending

/-!
# Messages between two ends

Two datagram sockets are each other's peers, and in each direction messages queue up: a send puts
one at the end, a receive takes the one in front, cut where it finds no room (`Kernel.Mail`).

A transfer of a message makes one such call, with all that it has to send, and a receive makes one,
with room for the message it has looked at before (`Script.keeps_datagram`,
`Script.keeps_readMessage`). Others may come in between, and take that message first; a receive that
then finds too little room for the next fails, so that none answers part of a message.
-/

namespace PacedNet

variable {K : Type}

/-- While two ends are up, `queue` is what is on its way from `a` to `b`, and no call that adds to
it or takes from it touches `other`. -/
structure Kernel.Post [Kernel K] (a b : Descriptor) (up : K → Prop)
    (queue other : K → List (List UInt8)) : Prop where
  /-- A send puts all of a message at the end, or fails. -/
  send : ∀ {octets : List UInt8} {flags : Nat} {pass : Option OpenFile} {answer : Except Errno Nat}
    {k k' : K}, up k → Kernel.send a octets flags pass k = (answer, k') →
    up k' ∧ other k' = other k ∧ match answer with
      | .error _ => queue k' = queue k
      | .ok n => n = octets.length ∧ queue k' = queue k ++ [octets]
  /-- A receive takes the message in front, and says how long it was, or fails. -/
  receive : ∀ {room : Nat} {answer : Except Errno Incoming} {k k' : K}, up k →
    Kernel.receive b room k = (answer, k') →
    up k' ∧ other k' = other k ∧ match answer with
      | .error _ => queue k' = queue k
      | .ok got => ∃ message, queue k = message :: queue k' ∧ got.octets = message.take room
          ∧ got.length = message.length
  /-- A look at the message in front leaves it there. -/
  nextLength : ∀ {answer : Except Errno Nat} {k k' : K}, up k →
    Kernel.nextLength b k = (answer, k') → up k' ∧ other k' = other k ∧ queue k' = queue k

/-- Two ends with a queue in each direction. -/
structure Kernel.Mail [Kernel K] (a b : Descriptor) (up : K → Prop)
    (queue back : K → List (List UInt8)) : Prop where
  apart : a ≠ b
  there : Kernel.Post a b up queue back
  back : Kernel.Post b a up back queue

theorem Kernel.Mail.symm [Kernel K] {a b : Descriptor} {up : K → Prop}
    {queue back : K → List (List UInt8)} (h : Kernel.Mail a b up queue back) :
    Kernel.Mail b a up back queue := ⟨h.apart.symm, h.back, h.there⟩

/-- A step that puts no message into a queue and takes none. -/
def Event.Idle : Event → Prop
  | sent _ _ (some _) => False
  | received _ _ (some _) => False
  | _ => True

namespace Moment

/-- The message that a step put on its way from `a`. -/
def posted (a : Descriptor) (x : Moment K) : List (List UInt8) :=
  match x.event with
  | .sent d octets (some _) => if d = a then [octets] else []
  | _ => []

/-- The message that a step took at `b`, which was in front. -/
def fetched (b : Descriptor) (queue : K → List (List UInt8)) (x : Moment K) :
    List (List UInt8) :=
  match x.event with
  | .received d _ (some _) => if d = b then (queue x.before.kernel).take 1 else []
  | _ => []

/-- A step that leaves both queues as they are. -/
structure Still (queue back : K → List (List UInt8)) (x : Moment K) : Prop where
  there : queue x.after.kernel = queue x.before.kernel
  back : back x.after.kernel = back x.before.kernel

/-- What a step puts into the queues goes to the end, and what it takes comes from the front. -/
structure Balances (a b : Descriptor) (queue back : K → List (List UInt8)) (x : Moment K) :
    Prop where
  there : queue x.before.kernel ++ x.posted a = x.fetched b queue ++ queue x.after.kernel
  back : back x.before.kernel ++ x.posted b = x.fetched a back ++ back x.after.kernel

variable {a b : Descriptor} {queue back : K → List (List UInt8)} {x : Moment K}

theorem Balances.symm (h : x.Balances a b queue back) : x.Balances b a back queue :=
  ⟨h.back, h.there⟩

theorem posted_of_idle (h : x.event.Idle) (a : Descriptor) : x.posted a = [] := by
  unfold posted
  split
  · rename_i heq
    rw [heq] at h
    exact h.elim
  · rfl

theorem fetched_of_idle (h : x.event.Idle) (b : Descriptor) (queue : K → List (List UInt8)) :
    x.fetched b queue = [] := by
  unfold fetched
  split
  · rename_i heq
    rw [heq] at h
    exact h.elim
  · rfl

theorem Still.balances (h : x.Still queue back) (hidle : x.event.Idle) :
    x.Balances a b queue back := by
  constructor
  · rw [posted_of_idle hidle, fetched_of_idle hidle, h.there, List.append_nil, List.nil_append]
  · rw [posted_of_idle hidle, fetched_of_idle hidle, h.back, List.append_nil, List.nil_append]

end Moment

/-- Among the steps one puts a message at the end of the queue, and the others leave all as it
is. -/
def Adds (queue back : K → List (List UInt8)) (done : List (Moment K)) (message : List UInt8) :
    Prop :=
  ∃ earlier x later, done = earlier ++ x :: later
    ∧ (∀ y ∈ earlier ++ later, y.Still queue back)
    ∧ queue x.after.kernel = queue x.before.kernel ++ [message]
    ∧ back x.after.kernel = back x.before.kernel

/-- Among the steps one takes the message in front of the queue, and the others leave all as it
is. -/
def Takes (queue back : K → List (List UInt8)) (done : List (Moment K)) (message : List UInt8) :
    Prop :=
  ∃ earlier x later, done = earlier ++ x :: later
    ∧ (∀ y ∈ earlier ++ later, y.Still queue back)
    ∧ queue x.before.kernel = message :: queue x.after.kernel
    ∧ back x.after.kernel = back x.before.kernel

/-- Later steps that leave all as it is make no difference. -/
theorem Takes.append {queue back : K → List (List UInt8)} {done : List (Moment K)}
    {message : List UInt8} (h : Takes queue back done message) {x : Moment K}
    (hx : x.Still queue back) : Takes queue back (done ++ [x]) message := by
  obtain ⟨earlier, y, later, rfl, hstill, htaken⟩ := h
  refine ⟨earlier, y, later ++ [x], by simp, fun z hz => ?_, htaken⟩
  rw [← List.append_assoc] at hz
  rcases List.mem_append.mp hz with hold | hnew
  · exact hstill z hold
  · exact List.mem_singleton.mp hnew ▸ hx

/-- What a receive comes to whose answer has `value` as its data: one that succeeds has taken a
message and answers all of it, and one that its quota refuses has taken none. -/
def Fetches {α : Type} (queue back : K → List (List UInt8)) (value : α → List UInt8)
    (done : List (Moment K)) : Except Failure α → Prop
  | .ok got => Takes queue back done (value got)
  | .error e => ∀ stage, e = .socket ⟨stage, .quotaExhausted⟩ → ∀ y ∈ done, y.Still queue back

namespace Script

variable {α β : Type} {a b : Descriptor} {up : K → Prop} {queue back : K → List (List UInt8)}
  {seen : List (Moment K)}

/-- What is asked of operations at the ends: they keep the ends up and the queues in order. -/
abbrev KeepsMail (a b : Descriptor) (up : K → Prop) (queue back : K → List (List UInt8))
    (post : List (Moment K) → Except Failure α → Prop) (seen : List (Moment K))
    (s : Script K α) : Prop :=
  s.Keeps (fun m => up m.kernel) (fun _ x => x.Balances a b queue back) post seen

theorem keepsMail_symm {post : List (Moment K) → Except Failure α → Prop} {s : Script K α}
    (h : KeepsMail a b up queue back post seen s) : KeepsMail b a up back queue post seen s := by
  induction s generalizing seen with
  | ended answer => exact h
  | next act rest ih =>
      intro m hm
      obtain ⟨hup, hrule, hrest⟩ := h m hm
      exact ⟨hup, hrule.symm, ih m hrest⟩

/-- A step that is no matter of the queues. -/
theorem keepsMail_idle {event : Machine K → Except Failure α → Event} {act : Act K α}
    (hidle : ∀ m r, (event m r).Idle)
    (hact : ∀ m r m', up m.kernel → act.run m = (r, m') → up m'.kernel
      ∧ queue m'.kernel = queue m.kernel ∧ back m'.kernel = back m.kernel)
    {post : List (Moment K) → Except Failure α → Prop}
    (hpost : ∀ m r m', act.run m = (r, m') → ∀ x, x.Still queue back → post (seen ++ [x]) r) :
    KeepsMail a b up queue back post seen (step event act) := by
  refine keeps_step fun m r m' hm h => ?_
  obtain ⟨hup, hqueue, hback⟩ := hact m r m' hm h
  have hstill : Moment.Still queue back ⟨m, event m r, m'⟩ := ⟨hqueue, hback⟩
  exact ⟨hup, hstill.balances (hidle m r), hpost m r m' h _ hstill⟩

theorem still_append {x : Moment K} (h : ∀ y ∈ seen, y.Still queue back)
    (hx : x.Still queue back) : ∀ y ∈ seen ++ [x], y.Still queue back := by
  intro y hy
  rcases List.mem_append.mp hy with hold | hnew
  · exact h y hold
  · exact List.mem_singleton.mp hnew ▸ hx

theorem keepsMail_paceWhole {stage : Stage} {quota : Option QuotaId} {bytes : Nat}
    (hseen : ∀ y ∈ seen, y.Still queue back) :
    KeepsMail a b up queue back (fun seen _ => ∀ y ∈ seen, y.Still queue back) seen
      (paceWhole stage quota bytes) := by
  refine keepsMail_idle (fun m r => ?_) (fun m r m' hm h => ?_)
    fun _ _ _ _ x hx => still_append hseen hx
  · split <;> trivial
  · obtain ⟨-, hkernel⟩ := Act.moves_pace (fun q now n => (q.reserve_spec now n).1) h
    rw [hkernel]
    exact ⟨hm, rfl, rfl⟩

/-- What comes of a socket that may not do what it is asked for is nothing. -/
theorem keepsMail_link {s : Socket} {stage : Stage} {allowed : State → Bool}
    {f : Link → Script K α} {post : List (Moment K) → Except Failure α → Prop} {d : Descriptor}
    (hd : s.descriptor = some d) (herror : ∀ e, post [] (.error e))
    (h : KeepsMail a b up queue back post [] (f ⟨d, s.quota, s.number, s.kind⟩)) :
    KeepsMail a b up queue back post [] (ofExcept (s.link stage allowed) >>= f) := by
  cases hlink : s.link stage allowed with
  | error e => exact herror _
  | ok link =>
      obtain rfl := Socket.link_eq_ok hd hlink
      exact h

variable [Kernel K]

theorem keepsMail_send (hK : Kernel.Mail a b up queue back) {link : Link}
    (hlink : link.descriptor = a) {octets : List UInt8} {flags : Nat} {pass : Option OpenFile}
    (hseen : ∀ y ∈ seen, y.Still queue back) :
    KeepsMail a b up queue back (fun seen answer => match answer with
        | .ok n => n = octets.length ∧ Adds queue back seen octets
        | .error _ => ∀ y ∈ seen, y.Still queue back)
      seen (send link octets flags pass) := by
  subst hlink
  refine keeps_step fun m r m' hm h => ?_
  obtain ⟨-, ⟨errno, hsend, rfl⟩ | ⟨n, hsend, rfl⟩⟩ := Act.run_call_cases h
  · obtain ⟨hup, hback, hqueue⟩ := hK.there.send hm hsend
    have hstill : Moment.Still queue back
        ⟨m, .sent link.descriptor octets none, m'⟩ := ⟨hqueue, hback⟩
    exact ⟨hup, hstill.balances trivial, still_append hseen hstill⟩
  · obtain ⟨hup, hback, hn, hqueue⟩ := hK.there.send hm hsend
    refine ⟨hup, ⟨?_, ?_⟩, hn, seen, _, [], rfl, by simpa using hseen, hqueue, hback⟩
    · show queue m.kernel ++ (if link.descriptor = link.descriptor then [octets] else [])
        = [] ++ queue m'.kernel
      rw [if_pos rfl, hqueue, List.nil_append]
    · show back m.kernel ++ (if link.descriptor = b then [octets] else []) = [] ++ back m'.kernel
      rw [if_neg hK.apart, hback, List.append_nil, List.nil_append]

theorem keepsMail_receive (hK : Kernel.Mail a b up queue back) {room : Nat}
    (hseen : ∀ y ∈ seen, y.Still queue back) :
    KeepsMail a b up queue back (fun seen answer => match answer with
        | .ok got => ∃ message, Takes queue back seen message ∧ got.octets = message.take room
            ∧ got.length = message.length
        | .error _ => ∀ y ∈ seen, y.Still queue back)
      seen (receive b room) := by
  refine keeps_step fun m r m' hm h => ?_
  obtain ⟨-, ⟨errno, hreceive, rfl⟩ | ⟨got, hreceive, rfl⟩⟩ := Act.run_call_cases h
  · obtain ⟨hup, hback, hqueue⟩ := hK.there.receive hm hreceive
    have hstill : Moment.Still queue back ⟨m, .received b room none, m'⟩ := ⟨hqueue, hback⟩
    exact ⟨hup, hstill.balances trivial, still_append hseen hstill⟩
  · obtain ⟨hup, hback, message, hqueue, hoctets, hlength⟩ := hK.there.receive hm hreceive
    refine ⟨hup, ⟨?_, ?_⟩, message,
      ⟨seen, _, [], rfl, by simpa using hseen, hqueue, hback⟩, hoctets, hlength⟩
    · show queue m.kernel ++ [] = (if b = b then (queue m.kernel).take 1 else []) ++ queue m'.kernel
      rw [if_pos rfl, hqueue, List.append_nil]
      rfl
    · show back m.kernel ++ [] = (if b = a then (back m.kernel).take 1 else []) ++ back m'.kernel
      rw [if_neg hK.apart.symm, hback, List.append_nil, List.nil_append]

/-- **A transfer of a message** puts all of it on its way in one step, or nothing. -/
theorem keepsMail_datagram (hK : Kernel.Mail a b up queue back) {link : Link}
    (hlink : link.descriptor = a) (parcel : Parcel) :
    KeepsMail a b up queue back (fun seen answer => match answer with
        | .ok report => report = ⟨parcel.payloadBytes, parcel.wire.length, 1⟩
            ∧ Adds queue back seen parcel.wire
        | .error _ => ∀ y ∈ seen, y.Still queue back)
      [] (datagram link parcel) := by
  refine keeps_bind (keepsMail_idle ?_ (fun m r m' hm h => ?_) fun m r m' _ x hx => ?_)
  · exact fun _ _ => trivial
  · rw [Transfer.run_checkpoint h]
    exact ⟨hm, rfl, rfl⟩
  · have hseen : ∀ y ∈ [] ++ [x], y.Still queue back := still_append (by simp) hx
    cases r with
    | error e => exact hseen
    | ok _ =>
        refine keeps_bind ((keepsMail_paceWhole hseen).mono fun seen r hseen => ?_)
        cases r with
        | error e => exact hseen
        | ok _ =>
            refine keeps_bind ((keepsMail_send hK hlink hseen).mono fun seen r hsent => ?_)
            cases r with
            | error e => exact hsent
            | ok n =>
                obtain ⟨rfl, hadds⟩ := hsent
                exact ⟨rfl, hadds⟩

/-- **A receive of a message** takes one in one step, and answers all of it. If it is refused by its
quota, it takes none. -/
theorem keepsMail_readMessage (hK : Kernel.Mail a b up queue back) {link : Link}
    (hlink : link.descriptor = b) :
    KeepsMail a b up queue back (Fetches queue back Incoming.octets) [] (readMessage link) := by
  subst hlink
  refine keeps_bind (keepsMail_idle ?_ (fun m r m' hm h => ?_) fun m r m' _ x hx => ?_)
  · exact fun _ _ => trivial
  · obtain ⟨-, hcases⟩ := Act.run_call_cases h
    obtain ⟨_, hlook, -⟩ | ⟨_, hlook, -⟩ := hcases
    · obtain ⟨hup, hback, hqueue⟩ := hK.there.nextLength hm hlook
      exact ⟨hup, hqueue, hback⟩
    · obtain ⟨hup, hback, hqueue⟩ := hK.there.nextLength hm hlook
      exact ⟨hup, hqueue, hback⟩
  · have hseen : ∀ y ∈ [] ++ [x], y.Still queue back := still_append (by simp) hx
    cases r with
    | error e => exact fun _ _ => hseen
    | ok length =>
        refine keeps_bind ((keepsMail_paceWhole hseen).mono fun seen r hseen => ?_)
        cases r with
        | error e => exact fun _ _ => hseen
        | ok _ =>
            refine keeps_bind ((keepsMail_receive hK hseen).mono fun seen r hgot => ?_)
            cases r with
            | error e => exact fun _ _ => hgot
            | ok got =>
                obtain ⟨message, htakes, hoctets, hlength⟩ := hgot
                dsimp only
                split
                · intro stage he
                  exact absurd he (by simp)
                · -- there was room for all of the message that was taken
                  rw [List.take_of_length_le (by omega)] at hoctets
                  show Takes queue back seen got.octets
                  exact hoctets ▸ htakes

/-- Where nobody acknowledges, nothing comes after a message. -/
theorem keepsMail_reply {s : Socket} {link : Link} (hack : s.acknowledge = false)
    {post : List (Moment K) → Except Failure Unit → Prop}
    (hpost : ∀ x, x.Still queue back → post (seen ++ [x]) (.ok ())) :
    KeepsMail a b up queue back post seen (reply s link) := by
  have hreply : ∀ (m : Machine K) r m', (s.reply link).run m = (r, m') → r = .ok () ∧ m' = m := by
    intro m r m' h
    unfold Socket.reply at h
    rw [hack] at h
    injection h with hr hm
    exact ⟨hr.symm, hm.symm⟩
  refine keepsMail_idle ?_ (fun m r m' hm h => ?_) fun m r m' h x hx => ?_
  · exact fun _ _ => trivial
  · obtain ⟨-, rfl⟩ := hreply m r m' h
    exact ⟨hm, rfl, rfl⟩
  · obtain ⟨rfl, -⟩ := hreply m r m' h
    exact hpost x hx

section

variable {s : Socket} (hK : Kernel.Mail a b up queue back) (hd : s.descriptor = some b)
  (hkind : s.kind = .datagram) (hack : s.acknowledge = false) (more : Nat)

include hK hd hkind hack

/-- A receive of data. -/
theorem keepsMail_receiveData :
    KeepsMail a b up queue back (Fetches queue back id) [] (receiveData s more) := by
  refine keepsMail_link hd (fun _ _ _ => by simp) ?_
  rw [hkind]
  refine keeps_bind ((keepsMail_readMessage hK rfl).mono fun seen answer hanswer => ?_)
  cases answer with
  | error e => exact hanswer
  | ok message =>
      show KeepsMail a b up queue back _ seen (reply s _ >>= fun _ => pure message.octets)
      exact keeps_bind (keepsMail_reply hack fun x hx => Takes.append hanswer hx)

/-- A receive of data and a descriptor. -/
theorem keepsMail_receivePassed :
    KeepsMail a b up queue back (Fetches queue back Prod.fst) [] (receivePassed s more) := by
  refine keepsMail_link hd (fun _ _ _ => by simp) ?_
  rw [hkind]
  refine keeps_bind ((keepsMail_readMessage hK rfl).mono fun seen answer hanswer => ?_)
  cases answer with
  | error e => exact hanswer
  | ok message =>
      dsimp only
      cases message.passed with
      | none =>
          intro stage he
          injection he with he
          injection he with _ hno
          exact absurd hno (by simp)
      | some file =>
          show KeepsMail a b up queue back _ seen
            (reply s _ >>= fun _ => pure (message.octets, file))
          exact keeps_bind (keepsMail_reply hack fun x hx => Takes.append hanswer hx)

omit hack in
/-- A receive up to the end, of which there is none. -/
theorem keepsMail_receiveToEnd :
    KeepsMail a b up queue back (Fetches queue back id) [] (receiveToEnd s more) := by
  refine keepsMail_link hd (fun _ _ _ => by simp) ?_
  rw [hkind]
  refine keeps_bind ((keepsMail_readMessage hK rfl).mono fun seen answer hanswer => ?_)
  cases answer with
  | error e => exact hanswer
  | ok message => exact hanswer

end

end Script

end PacedNet
