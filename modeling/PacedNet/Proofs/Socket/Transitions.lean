import PacedNet.Proofs.Socket.Methods
import PacedNet.Proofs.Socket.Workload
import PacedNet.Socket.Receive

/-!
# The diagram of a socket's life

Five operations move a socket along a diagram. One that the diagram does not allow is refused at
once; one that fails for any other reason leaves its socket as it was; and one that succeeds brings
the socket where the diagram says (`Move.run_cases`). A socket that is closed has left the diagram:
whatever it is asked is refused (`Call.run_closed`).
-/

namespace PacedNet

/-- An operation that may bring a socket further. -/
inductive Move where
  | bind (e : Endpoint)
  | listen (backlog : Int)
  | accept
  | connect (e : Endpoint)
  | shutdown (how : Direction)
deriving DecidableEq

namespace Move

/-- The diagram: where a move leads from a state that allows it. -/
def leads : Move → State → Option State
  | bind _, .created => some .bound
  | listen _, .bound => some .listening
  | accept, .listening => some .listening
  | connect _, .created | connect _, .bound => some .connected
  | shutdown how, .connected => some (.shutDown how)
  | _, _ => none

/-- The stage that the errors of a move belong to. -/
def stage : Move → Stage
  | bind _ => .bind ""
  | listen _ => .listen 0
  | accept => .accept
  | connect _ => .connect ""
  | shutdown _ => .shutdown

variable {K : Type}

/-- A method as a move: it makes no new socket. -/
def byMethod (method : Method K Unit) (s : Socket) (m : Machine K) :
    Except Failure (Option Socket) × Socket × Machine K :=
  let (answer, after) := method.run (s, m)
  (answer.map fun _ => none, after)

variable [Kernel K] in
/-- Makes a move: the socket that was accepted, if that was the move, and what has become of the
socket and of what sockets share. -/
def run (s : Socket) (m : Machine K) :
    Move → Except Failure (Option Socket) × Socket × Machine K
  | bind e => byMethod (Method.bindTo e) s m
  | listen backlog => byMethod (Method.listenFor backlog) s m
  | accept =>
    let (answer, m) := s.accept.run m
    (answer.map some, s, m)
  | connect e => byMethod (Method.connectTo e) s m
  | shutdown how => byMethod (Method.shut how) s m

/-- What a move that succeeds makes of a socket, and the socket it accepts. -/
inductive Makes (s : Socket) : Move → Option Socket → Socket → Prop where
  | bind {e found : Endpoint} {own : Option Endpoint} : s.state = .created →
      e.Finds s.family found → Makes s (.bind e) none
        { s with file := Method.fileAt s.file found, ownEndpoint := own, state := .bound }
  | listen {backlog : Int} : s.state = .bound →
      Makes s (.listen backlog) none { s with state := .listening }
  | accept {new : Socket} {d : Descriptor} : s.state = .listening → new.state = .connected →
      new.descriptor = some d → new.file = none → new.quota = s.quota →
      new.acknowledge = s.acknowledge → new.readChunk = s.readChunk →
      Makes s .accept (some new) s
  | connect {e : Endpoint} {peer own : Option Endpoint} : s.state = .created ∨ s.state = .bound →
      Makes s (.connect e) none
        { s with peerEndpoint := peer, ownEndpoint := own, state := .connected }
  | shutdown {how : Direction} : s.state = .connected →
      Makes s (.shutdown how) none { s with state := .shutDown how }

variable {s s' : Socket} {m m' : Machine K} {mv : Move} {new : Option Socket}
  {r : Except Failure (Option Socket)}

theorem Makes.leads (h : Makes s mv new s') : mv.leads s.state = some s'.state := by
  cases h with
  | bind hstate => rw [hstate]; rfl
  | listen hstate => rw [hstate]; rfl
  | accept hstate => rw [hstate]; rfl
  | connect hstate => rcases hstate with hstate | hstate <;> (rw [hstate]; rfl)
  | shutdown hstate => rw [hstate]; rfl

/-- A socket that is accepted is connected, and comes of a socket that stays as it is. -/
theorem Makes.accepted {t : Socket} (h : Makes s mv (some t) s') :
    s' = s ∧ t.state = .connected := by
  cases h with
  | accept _ hstate => exact ⟨rfl, hstate⟩

/-! ## Moves that succeed, and moves that fail -/

theorem run_byMethod {method : Method K Unit} (h : byMethod method s m = (r, s', m')) :
    ∃ answer, method.run (s, m) = (answer, (s', m')) ∧ r = answer.map fun _ => none := by
  unfold byMethod at h
  injection h with hr hafter
  exact ⟨_, Prod.ext rfl hafter, hr.symm⟩

theorem byMethod_enter_refused {stage : Stage} {allowed : State → Bool}
    {next : Socket → Descriptor → Method K Unit} (h : allowed s.state = false) :
    byMethod (Method.enter stage allowed next) s m
      = (.error (.socket (.invalidState stage s.state)), s, m) := by
  unfold byMethod
  rw [Method.run_enter_refused h]
  rfl

variable [Kernel K]

theorem run_accept_ok {t : Socket} (h : (s.accept).run m = (.ok t, m')) :
    Makes s .accept (some t) s := by
  unfold Socket.accept at h
  obtain ⟨d, m₁, hexpect, h₁⟩ := run_bind_ok h
  obtain ⟨rfl, ⟨-, -, -, hstate⟩ | hno⟩ := Socket.run_expect hexpect
  · obtain ⟨⟨connection, peer⟩, m₂, -, h₂⟩ := run_bind_ok h₁
    injection h₂ with hnew _
    injection hnew with hnew
    subst hnew
    exact .accept (by simpa using hstate) rfl rfl rfl rfl rfl rfl
  · exact absurd hno (by simp)

/-- **A move.** One that fails leaves its socket as it was; one that succeeds does what moves of its
kind do. -/
theorem run_cases (h : mv.run s m = (r, s', m')) :
    (∃ failure, r = .error failure) ∧ s' = s ∨ ∃ new, r = .ok new ∧ Makes s mv new s' := by
  cases mv with
  | bind e =>
      obtain ⟨answer, hrun, rfl⟩ := run_byMethod h
      obtain ⟨m₁, -, ⟨⟨failure, rfl⟩, hs, -⟩ | ⟨rfl, hstate, d, found, own, -, hfound, -, rfl⟩⟩ :=
        Method.run_bindTo hrun
      · exact .inl ⟨⟨failure, rfl⟩, hs⟩
      · exact .inr ⟨none, rfl, .bind hstate hfound⟩
  | listen backlog =>
      obtain ⟨answer, hrun, rfl⟩ := run_byMethod h
      rcases Method.run_listenFor hrun with ⟨⟨failure, rfl⟩, hs, -⟩ | ⟨rfl, hstate, d, -, -, rfl⟩
      · exact .inl ⟨⟨failure, rfl⟩, hs⟩
      · exact .inr ⟨none, rfl, .listen hstate⟩
  | accept =>
      replace h : (let (answer, m) := s.accept.run m
          (answer.map some, s, m)) = (r, s', m') := h
      cases haccept : s.accept.run m with
      | mk answer m₁ =>
          rw [haccept] at h
          injection h with hr h
          injection h with hs _
          subst hr hs
          cases answer with
          | error failure => exact .inl ⟨⟨failure, rfl⟩, rfl⟩
          | ok t => exact .inr ⟨some t, rfl, run_accept_ok haccept⟩
  | connect e =>
      obtain ⟨answer, hrun, rfl⟩ := run_byMethod h
      obtain ⟨m₁, -, ⟨⟨failure, rfl⟩, hs, -⟩
        | ⟨rfl, hstate, d, found, peer, own, -, -, -, -, rfl⟩⟩ := Method.run_connectTo hrun
      · exact .inl ⟨⟨failure, rfl⟩, hs⟩
      · exact .inr ⟨none, rfl, .connect hstate⟩
  | shutdown how =>
      obtain ⟨answer, hrun, rfl⟩ := run_byMethod h
      rcases Method.run_shut hrun with ⟨⟨failure, rfl⟩, hs, -⟩ | ⟨rfl, hstate, d, -, -, rfl⟩
      · exact .inl ⟨⟨failure, rfl⟩, hs⟩
      · exact .inr ⟨none, rfl, .shutdown hstate⟩

/-- A move that the diagram does not allow is refused before anything is done or looked at. -/
theorem run_refused (h : mv.leads s.state = none) :
    mv.run s m = (.error (.socket (.invalidState mv.stage s.state)), s, m) := by
  have hnot (allowed : State → Bool) (hallowed : ∀ state, allowed state = (mv.leads state).isSome) :
      allowed s.state = false := by
    rw [hallowed, h]
    rfl
  cases mv with
  | accept =>
      have haccept : s.accept.run m = (.error (.socket (.invalidState .accept s.state)), m) := by
        unfold Socket.accept
        refine run_bind_of_error (Socket.run_expect_refused ?_)
        exact hnot (· == .listening) fun state => by cases state <;> rfl
      show (let (answer, m) := s.accept.run m; (answer.map some, s, m)) = _
      rw [haccept]
      rfl
  | bind e =>
      show byMethod (Method.bindTo e) s m = _
      refine byMethod_enter_refused ?_
      exact hnot (· == .created) fun state => by cases state <;> rfl
  | listen backlog =>
      show byMethod (Method.listenFor backlog) s m = _
      refine byMethod_enter_refused ?_
      exact hnot (· == .bound) fun state => by cases state <;> rfl
  | connect e =>
      show byMethod (Method.connectTo e) s m = _
      refine byMethod_enter_refused ?_
      exact hnot (fun state => state == .created || state == .bound) fun state => by
        cases state <;> rfl
  | shutdown how =>
      show byMethod (Method.shut how) s m = _
      refine byMethod_enter_refused ?_
      exact hnot (· == .connected) fun state => by cases state <;> rfl

end Move

/-! ## Closed sockets -/

/-- Whatever is asked of a socket and answered at once. -/
inductive Call where
  | move (mv : Move)
  | send (p : Payload) (options : SendOptions)
  | receiveData
  | receiveRecords
  | receivePassed
  | receiveToEnd
  | set (setting : Setting)
  | receiveBuffer
  | sendBuffer
  | takeError
  | close

namespace Call

/-- The stage that the errors of a call belong to. -/
def stage : Call → Stage
  | move mv => mv.stage
  | send .. => .write
  | receiveData | receiveRecords | receivePassed | receiveToEnd => .read
  | set setting => Socket.settingStage setting
  | receiveBuffer => .read
  | sendBuffer => .write
  | takeError => .read
  | close => .close

variable {K : Type}

/-- An operation that leaves its socket alone, and whether it succeeds. -/
def byAct {α : Type} (s : Socket) (act : Act K α) (m : Machine K) :
    Except Failure Unit × Socket × Machine K :=
  let (answer, m) := act.run m
  (answer.map fun _ => (), s, m)

variable [Kernel K] in
/-- Makes a call: whether it succeeds, and what has become of the socket and of what sockets
share. -/
def run (s : Socket) (m : Machine K) : Call → Except Failure Unit × Socket × Machine K
  | move mv =>
    let (answer, after) := mv.run s m
    (answer.map fun _ => (), after)
  | send p options => byAct s (s.send p options) m
  | receiveData => byAct s s.receiveData m
  | receiveRecords => byAct s s.receiveRecords m
  | receivePassed => byAct s s.receivePassed m
  | receiveToEnd => byAct s s.receiveToEnd m
  | set setting => byAct s (s.configure setting) m
  | receiveBuffer => byAct s s.receiveBuffer m
  | sendBuffer => byAct s s.sendBuffer m
  | takeError => byAct s s.takeError m
  | close =>
    let (answer, after) := s.close m
    (answer.mapError .socket, after)

variable {s : Socket} {m : Machine K}

theorem byAct_refused {α β : Type} {first : Act K α} {next : α → Act K β} {e : SocketError}
    (h : first.run m = (.error (.socket e), m)) :
    byAct s (first >>= next) m = (.error (.socket e), s, m) := by
  unfold byAct
  rw [run_bind_of_error h]
  rfl

variable [Kernel K]

/-- A socket that is closed refuses whatever it is asked, and nothing is done. -/
theorem run_closed (hd : s.descriptor = none) (hstate : s.state = .closed) (call : Call) :
    call.run s m = (.error (.socket (.invalidState call.stage .closed)), s, m) := by
  have hlink (stage : Stage) (allowed : State → Bool) :
      (Act.ofExcept (s.link stage allowed) : Act K Link).run m
        = (.error (.socket (.invalidState stage .closed)), m) := by
    unfold Socket.link
    rw [hd, hstate]
    rfl
  have hopen (stage : Stage) : (s.openDescriptor stage : Act K Descriptor).run m
      = (.error (.socket (.invalidState stage .closed)), m) := by
    unfold Socket.openDescriptor
    rw [hd, hstate]
    rfl
  cases call with
  | move mv =>
      have hrefused : mv.run s m = (.error (.socket (.invalidState mv.stage .closed)), s, m) := by
        have hnowhere : mv.leads s.state = none := by rw [hstate]; cases mv <;> rfl
        rw [Move.run_refused hnowhere, hstate]
      show (let (answer, after) := mv.run s m; (answer.map fun _ => (), after)) = _
      rw [hrefused]
      rfl
  | send p options => exact byAct_refused (hlink _ _)
  | receiveData => exact byAct_refused (hlink _ _)
  | receiveRecords =>
      have hrefused : s.receiveData.run m = (.error (.socket (.invalidState .read .closed)), m) :=
        run_bind_of_error (hlink _ _)
      exact byAct_refused hrefused
  | receivePassed => exact byAct_refused (hlink _ _)
  | receiveToEnd => exact byAct_refused (hlink _ _)
  | set setting => exact byAct_refused (hopen _)
  | receiveBuffer => exact byAct_refused (hopen _)
  | sendBuffer => exact byAct_refused (hopen _)
  | takeError => exact byAct_refused (hopen _)
  | close =>
      show (let (answer, after) := s.close m; (answer.mapError Failure.socket, after)) = _
      unfold Socket.close
      rw [hstate]
      rfl

end Call

/-- An asynchronous send of a socket that may not send is refused through its slot, at once. -/
theorem Socket.dispatch_refused {K : Type} [Kernel K] {s : Socket} {m : Machine K}
    {e : SocketError} (h : s.writer = .error e) (p : Payload) (options : SendOptions)
    (callback : Bool) :
    s.dispatch p options callback m = (⟨m.slots.length, none, s⟩,
      { m with
        slots := m.slots ++ [⟨some (.error e), false, true⟩]
        calls := if callback then m.calls ++ [(m.slots.length, .error e)] else m.calls }) := by
  unfold dispatch
  dsimp only
  rw [prepare_refused h]
  exact congrArg (Prod.mk _) ((m.addSlot callback).2.resolve_newest _ rfl)

end PacedNet
