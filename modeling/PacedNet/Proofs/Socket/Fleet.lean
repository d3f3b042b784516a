import PacedNet.Host.Calls
import PacedNet.Proofs.Socket.Accounts
import PacedNet.Proofs.Socket.Transitions
import Mathlib.Logic.Relation

/-!
# All sockets of a program

A program creates sockets, moves them, sets them up, lets them send in the background, closes them
and gives them up; between that, anything may happen to what they share (`Fleet.Step`). Of each
socket it is remembered whether it was accepted, and what it was bound to, and of sockets that are
gone which files the kernel refused to remove. What a socket itself tells then fits what it has been
through, whatever the kernel answered (`Fleet.sound_reaches`).
-/

namespace PacedNet

/-- What a socket is told without asking the kernel. -/
inductive Setup where
  | quota (id : Option QuotaId)
  | acknowledge (on : Bool)
  | readChunk (size : Nat)

def Setup.apply (s : Socket) : Setup → Socket
  | quota id => { s with quota := id }
  | acknowledge on => { s with acknowledge := on }
  | readChunk size => s.setReadChunk size

/-- What may be done with a socket. -/
inductive Deed where
  | move (mv : Move)
  | setUp (setup : Setup)
  /-- Starts an asynchronous send. -/
  | dispatch (p : Payload) (options : SendOptions) (callback : Bool)
  | close
  | drop

/-- A socket of a program, with what it has been through. -/
structure Member where
  socket : Socket
  /-- It came of a listening socket. -/
  accepted : Bool
  /-- What it was bound to, if a bind has succeeded. -/
  boundTo : Option Endpoint

/-- The member after a move. -/
def Member.after (t : Member) (mv : Move) (answer : Except Failure (Option Socket)) (s : Socket) :
    Member where
  socket := s
  accepted := t.accepted
  boundTo := match mv, answer with
    | .bind e, .ok _ => some e
    | _, _ => t.boundTo

/-- The sockets of a program, and what they share. -/
structure Fleet (K : Type) where
  machine : Machine K
  members : List Member
  /-- The files of sockets that are closed, which the kernel refused to remove. -/
  left : List (List UInt8)

/-- The file that stays when a socket is closed, if the kernel refuses to remove it. -/
def Socket.refusedFile {K : Type} [Kernel K] (s : Socket) (m : Machine K) : Option (List UInt8) :=
  if s.state = .closed then none
  else
    match (s.removing (s.cancelling m)).1 with
    | .ok () => none
    | .error _ => s.file

namespace Fleet

variable {K : Type}

/-- Before any socket. -/
def start (m : Machine K) : Fleet K := ⟨m, [], []⟩

/-- The socket that a move has accepted. -/
def newcomers : Except Failure (Option Socket) → List Member
  | .ok (some s) => [⟨s, true, none⟩]
  | _ => []

section

variable [Kernel K]

/-- One more socket, unless the kernel refuses. -/
def create (c : Fleet K) (family : Family) (kind : Kind) : Fleet K :=
  match (Socket.create family kind).run c.machine with
  | (.ok s, machine) => { c with machine, members := c.members ++ [⟨s, false, none⟩] }
  | (.error _, machine) => { c with machine }

/-- One of the sockets does something. -/
def does (c : Fleet K) (i : Nat) (t : Member) : Deed → Fleet K
  | .move mv =>
    let (answer, s, machine) := mv.run t.socket c.machine
    { c with machine, members := c.members.set i (t.after mv answer s) ++ newcomers answer }
  | .setUp setup => { c with members := c.members.set i { t with socket := setup.apply t.socket } }
  | .dispatch p options callback =>
    let (started, machine) := t.socket.dispatch p options callback c.machine
    { c with machine, members := c.members.set i { t with socket := started.socket } }
  | .close =>
    let (_, s, machine) := t.socket.close c.machine
    ⟨machine, c.members.set i { t with socket := s },
      c.left ++ (t.socket.refusedFile c.machine).toList⟩
  | .drop =>
    ⟨t.socket.drop c.machine, c.members.eraseIdx i,
      c.left ++ (t.socket.refusedFile c.machine).toList⟩

/-- The socket of that number, if there is one, does something. -/
def act (c : Fleet K) (i : Nat) (deed : Deed) : Fleet K :=
  match c.members[i]? with
  | some t => c.does i t deed
  | none => c

/-- What may happen: a socket is created, one does something that `admits` lets in, or what the
sockets share changes on the side as `aside` says. -/
inductive Step (admits : Deed → Prop) (aside : Machine K → Machine K → Prop) :
    Fleet K → Fleet K → Prop where
  | create (c : Fleet K) (family : Family) (kind : Kind) :
      Step admits aside c (c.create family kind)
  | does (c : Fleet K) {i : Nat} {t : Member} (deed : Deed) : c.members[i]? = some t →
      admits deed → Step admits aside c (c.does i t deed)
  | aside (c : Fleet K) {m : Machine K} : aside c.machine m →
      Step admits aside c { c with machine := m }

/-- A state that a program may come to. -/
abbrev Reaches (admits : Deed → Prop) (aside : Machine K → Machine K → Prop) (c c' : Fleet K) :
    Prop :=
  Relation.ReflTransGen (Step admits aside) c c'

variable {admits : Deed → Prop} {aside : Machine K → Machine K → Prop} {c c' : Fleet K}

theorem Reaches.create (h : Reaches admits aside c c') (family : Family) (kind : Kind) :
    Reaches admits aside c (c'.create family kind) :=
  h.tail (.create c' family kind)

theorem Reaches.act (h : Reaches admits aside c c') (i : Nat) {deed : Deed} (hdeed : admits deed) :
    Reaches admits aside c (c'.act i deed) := by
  unfold Fleet.act
  split
  · rename_i t hi
    exact h.tail (.does c' deed hi hdeed)
  · exact h

end

end Fleet

/-! ## What a socket tells of itself -/

/-- What a socket tells fits what it has been through. -/
structure Member.Sound (t : Member) : Prop where
  /-- It has a descriptor as long as it is not closed. -/
  descriptor : t.socket.descriptor.isSome = true ↔ t.socket.state ≠ .closed
  readChunk : 1 ≤ t.socket.readChunk
  /-- A socket that was accepted has not been bound and never will be. -/
  accepted : t.accepted = true → t.socket.state ≠ .created ∧ t.boundTo = none
  /-- Its file is what it was bound to. -/
  file : ∀ path, t.socket.file = some path →
    t.boundTo = some (.unix (.path path)) ∧ t.socket.state ≠ .created ∧ t.socket.state ≠ .closed

/-- A socket that starts an asynchronous send only remembers it. -/
theorem Socket.socket_dispatch {K : Type} [Kernel K] (s : Socket) (p : Payload)
    (options : SendOptions) (callback : Bool) (m : Machine K) :
    ∃ pending, (s.dispatch p options callback m).1.socket = { s with pending } := by
  unfold dispatch
  dsimp only
  split <;> exact ⟨_, rfl⟩

namespace Member.Sound

variable {K : Type} [Kernel K] {t : Member} {s s' : Socket} {m m' : Machine K} {mv : Move}

omit [Kernel K] in
theorem file_of_created (h : t.Sound) (hstate : t.socket.state = .created) :
    t.socket.file = none := by
  cases hfile : t.socket.file with
  | none => rfl
  | some path => exact absurd hstate (h.file path hfile).2.1

/-- A socket without a file that has not been bound. -/
theorem of_new {accepted : Bool} (hd : s.descriptor.isSome = true) (hstate : s.state ≠ .closed)
    (hchunk : 1 ≤ s.readChunk) (hfile : s.file = none)
    (haccepted : accepted = true → s.state ≠ .created) : (⟨s, accepted, none⟩ : Member).Sound where
  descriptor := ⟨fun _ => hstate, fun _ => hd⟩
  readChunk := hchunk
  accepted h := ⟨haccepted h, rfl⟩
  file path h := absurd (hfile.symm.trans h) (by simp)

theorem create {family : Family} {kind : Kind}
    (h : (Socket.create family kind).run m = (.ok s, m')) : (⟨s, false, none⟩ : Member).Sound := by
  obtain ⟨d, m₁, -, hadopt⟩ := run_bind_ok h
  injection hadopt with hs _
  injection hs with hs
  subst hs
  have hchunk : 1 ≤ defaultReadChunk := by decide
  exact of_new rfl (by simp) hchunk rfl (by simp)

/-- Other settings are no matter. -/
theorem congr (h : t.Sound) (hd : s.descriptor = t.socket.descriptor)
    (hstate : s.state = t.socket.state) (hchunk : 1 ≤ s.readChunk)
    (hfile : s.file = t.socket.file) : ({ t with socket := s } : Member).Sound where
  descriptor := by rw [hd, hstate]; exact h.descriptor
  readChunk := hchunk
  accepted := by rw [hstate]; exact h.accepted
  file := by rw [hstate, hfile]; exact h.file

/-- A socket that was there goes on to another state, with its file. -/
theorem further (h : t.Sound) (hd : s.descriptor = t.socket.descriptor)
    (hopen : t.socket.state ≠ .closed)
    (hstate : s.state ≠ .created ∧ s.state ≠ .closed) (hchunk : s.readChunk = t.socket.readChunk)
    (hfile : s.file = t.socket.file) : ({ t with socket := s } : Member).Sound where
  descriptor := ⟨fun _ => hstate.2, fun _ => by rw [hd]; exact h.descriptor.mpr hopen⟩
  readChunk := hchunk ▸ h.readChunk
  accepted haccepted := ⟨hstate.1, (h.accepted haccepted).2⟩
  file path hpath := ⟨(h.file path (hfile ▸ hpath)).1, hstate⟩

theorem move (h : t.Sound) {r : Except Failure (Option Socket)}
    (hrun : mv.run t.socket m = (r, s', m')) :
    (t.after mv r s').Sound ∧ ∀ u ∈ Fleet.newcomers r, u.Sound := by
  rcases Move.run_cases hrun with ⟨⟨failure, rfl⟩, rfl⟩ | ⟨new, rfl, hmakes⟩
  · have hsame : t.after mv (.error failure) t.socket = t := by
      unfold Member.after
      cases mv <;> rfl
    rw [hsame]
    exact ⟨h, fun u hu => absurd hu (by simp [Fleet.newcomers])⟩
  · cases hmakes with
    | bind hstate hfound =>
        have hold := h.file_of_created hstate
        refine ⟨⟨?_, h.readChunk, fun haccepted => ?_, fun path hpath => ?_⟩,
          by simp [Fleet.newcomers]⟩
        · have hopen : t.socket.state ≠ .closed := by rw [hstate]; decide
          exact ⟨fun _ => by simp [Member.after], fun _ => h.descriptor.mpr hopen⟩
        · exact absurd hstate (h.accepted haccepted).1
        · have hpath : Method.fileAt t.socket.file _ = some path := hpath
          rw [hold] at hpath
          exact ⟨congrArg some (Method.eq_of_fileAt hfound hpath), by simp [Member.after],
            by simp [Member.after]⟩
    | listen hstate =>
        exact ⟨h.further rfl (by rw [hstate]; decide) ⟨by simp, by simp⟩ rfl rfl,
          by simp [Fleet.newcomers]⟩
    | accept hstate hnew hd hfile hquota hacknowledge hchunk =>
        refine ⟨h, fun u hu => ?_⟩
        obtain rfl := List.mem_singleton.mp hu
        exact of_new (by simp [hd]) (by simp [hnew]) (hchunk ▸ h.readChunk) hfile
          fun _ => by simp [hnew]
    | connect hstate =>
        refine ⟨h.further rfl ?_ ⟨by simp, by simp⟩ rfl rfl, by simp [Fleet.newcomers]⟩
        rcases hstate with hstate | hstate <;> (rw [hstate]; decide)
    | shutdown hstate =>
        exact ⟨h.further rfl (by rw [hstate]; decide) ⟨by simp, by simp⟩ rfl rfl,
          by simp [Fleet.newcomers]⟩

theorem setUp (h : t.Sound) (setup : Setup) :
    ({ t with socket := setup.apply t.socket } : Member).Sound := by
  cases setup with
  | quota id => exact h.congr rfl rfl h.readChunk rfl
  | acknowledge on => exact h.congr rfl rfl h.readChunk rfl
  | readChunk size => exact h.congr rfl rfl (Nat.le_max_right size 1) rfl

theorem dispatch (h : t.Sound) (p : Payload) (options : SendOptions) (callback : Bool)
    (m : Machine K) :
    ({ t with socket := (t.socket.dispatch p options callback m).1.socket } : Member).Sound := by
  obtain ⟨pending, hsocket⟩ := t.socket.socket_dispatch p options callback m
  rw [hsocket]
  exact h.congr rfl rfl h.readChunk rfl

theorem close (h : t.Sound) (m : Machine K) :
    ({ t with socket := (t.socket.close m).2.1 } : Member).Sound := by
  unfold Socket.close
  split
  · exact h
  · exact ⟨by simp [Socket.afterClose], h.readChunk,
      fun haccepted => ⟨by simp [Socket.afterClose], (h.accepted haccepted).2⟩,
      fun path hpath => absurd hpath (by simp [Socket.afterClose])⟩

end Member.Sound

/-- A socket is closed after closing, also where the kernel reports an error. -/
theorem Socket.state_close {K : Type} [Kernel K] (s : Socket) (m : Machine K) :
    (s.close m).2.1.state = .closed := by
  unfold close
  split
  · rename_i hstate
    exact beq_iff_eq.mp hstate
  · rfl

namespace Fleet

variable {K : Type} [Kernel K] {admits : Deed → Prop} {aside : Machine K → Machine K → Prop}
  {c c' : Fleet K} {m₀ : Machine K}

theorem sound_step (h : ∀ t ∈ c.members, t.Sound) (hstep : Step admits aside c c') :
    ∀ t ∈ c'.members, t.Sound := by
  have hset {i : Nat} {t : Member} (ht : t.Sound) : ∀ u ∈ c.members.set i t, u.Sound := by
    intro u hu
    rcases List.mem_or_eq_of_mem_set hu with hu | rfl
    · exact h u hu
    · exact ht
  cases hstep with
  | create family kind =>
      unfold create
      cases hcreate : (Socket.create family kind).run c.machine with
      | mk answer machine =>
          cases answer with
          | error failure => exact h
          | ok s =>
              intro u hu
              rcases List.mem_append.mp hu with hu | hu
              · exact h u hu
              · obtain rfl := List.mem_singleton.mp hu
                exact Member.Sound.create hcreate
  | does deed hi =>
      have ht := h _ (List.mem_of_getElem? hi)
      cases deed with
      | move mv =>
          obtain ⟨hmover, hnew⟩ := ht.move (show mv.run _ c.machine = (_, _, _) from rfl)
          intro u hu
          rcases List.mem_append.mp hu with hu | hu
          · exact hset hmover u hu
          · exact hnew u hu
      | setUp setup => exact hset (ht.setUp setup)
      | dispatch p options callback => exact hset (ht.dispatch p options callback c.machine)
      | close => exact hset (ht.close c.machine)
      | drop => exact fun u hu => h u (List.mem_of_mem_eraseIdx hu)
  | aside => exact h

/-- **What a socket tells fits what it has been through**, whatever has happened. -/
theorem sound_reaches (h : Reaches admits aside (start m₀) c) : ∀ t ∈ c.members, t.Sound := by
  induction h with
  | refl => exact fun t ht => absurd ht (by simp [start])
  | tail _ hstep ih => exact sound_step ih hstep

/-- **Sockets keep to the diagram.** For every socket of a program that has come anywhere, and
whatever the kernel answers: a move that fails for any reason leaves its socket as it was, one that
succeeds leads where the diagram says, and one that the diagram does not allow is refused in its own
words before anything is done. A socket that is closed refuses whatever it is asked, and nothing is
done; an asynchronous send is refused through its slot. -/
theorem keeps_to_diagram (h : Reaches admits aside (start m₀) c) {t : Member} (ht : t ∈ c.members)
    (m : Machine K) :
    (∀ (mv : Move) r s' m', mv.run t.socket m = (r, s', m') →
      (∀ failure, r = .error failure → s' = t.socket)
        ∧ ∀ new, r = .ok new → mv.leads t.socket.state = some s'.state
          ∧ ∀ u, new = some u → s' = t.socket ∧ u.state = .connected)
    ∧ (∀ mv : Move, mv.leads t.socket.state = none → mv.run t.socket m
        = (.error (.socket (.invalidState mv.stage t.socket.state)), t.socket, m))
    ∧ (t.socket.close m).2.1.state = .closed
    ∧ (t.socket.state = .closed →
      (∀ call : Call, call.run t.socket m
        = (.error (.socket (.invalidState call.stage .closed)), t.socket, m))
      ∧ ∀ p options callback, t.socket.dispatch p options callback m
        = (⟨m.slots.length, none, t.socket⟩,
          { m with
            slots := m.slots ++ [⟨some (.error (.invalidState .write .closed)), false, true⟩]
            calls := if callback
              then m.calls ++ [(m.slots.length, .error (.invalidState .write .closed))]
              else m.calls })) := by
  refine ⟨fun mv r s' m' hrun => ?_, fun mv hno => Move.run_refused hno, t.socket.state_close m,
    fun hclosed => ?_⟩
  · rcases Move.run_cases hrun with ⟨⟨failure, rfl⟩, hsame⟩ | ⟨new, rfl, hmakes⟩
    · exact ⟨fun _ _ => hsame, fun new hno => absurd hno (by simp)⟩
    · refine ⟨fun failure hno => absurd hno (by simp), fun new' hnew => ?_⟩
      injection hnew with hnew
      subst hnew
      exact ⟨hmakes.leads, fun u hu => (hu ▸ hmakes).accepted⟩
  · have hd : t.socket.descriptor = none := by
      have hiff := (sound_reaches h t ht).descriptor
      simpa [hclosed] using hiff
    refine ⟨Call.run_closed hd hclosed, fun p options callback => ?_⟩
    refine Socket.dispatch_refused ?_ p options callback
    unfold Socket.writer Socket.link
    rw [hd, hclosed]

/-- A program with a listening socket, one that a bind has failed for, and one that is closed. -/
def mixedStates : Fleet Host :=
  let name : Endpoint := .unix (.path [0x61])
  let c := (((start (Machine.start Host.empty)).create .unix .stream).act 0
    (.move (.bind name))).act 0 (.move (.listen 1))
  ((((c.create .unix .stream).act 1 (.move (.bind name))).create .unix .stream).act 2 .close)

theorem reaches_mixedStates :
    Reaches (fun _ => True) (fun m m' => m' = m) (start (Machine.start Host.empty)) mixedStates := by
  unfold mixedStates
  exact .act (.create (.act (.create (.act (.act (.create .refl _ _) _ trivial) _ trivial) _ _) _
    trivial) _ _) _ trivial

theorem states_mixedStates : mixedStates.members.map (fun t => (t.socket.state, t.socket.file))
    = [(.listening, some [0x61]), (.created, none), (.closed, none)] := by decide +kernel

/-- A listening socket cannot be connected, and a socket whose bind has failed is as it was. One
that is closed does not even tell its pending error. -/
theorem keeps_to_diagram_mixedStates :
    ∃ listener idle gone, mixedStates.members = [listener, idle, gone]
      ∧ (∀ m : Machine Host, (Move.connect (.unix .unnamed)).run listener.socket m
        = (.error (.socket (.invalidState (.connect "") .listening)), listener.socket, m))
      ∧ (∀ (m : Machine Host) failure s' m',
        (Move.bind (.unix (.path [0x61]))).run idle.socket m = (.error failure, s', m') →
          s' = idle.socket)
      ∧ ∀ m : Machine Host, Call.takeError.run gone.socket m
        = (.error (.socket (.invalidState .read .closed)), gone.socket, m) := by
  obtain ⟨listener, _, hall, hlistening, hrest⟩ := List.map_eq_cons_iff.mp states_mixedStates
  obtain ⟨idle, _, rfl, -, hrest⟩ := List.map_eq_cons_iff.mp hrest
  obtain ⟨gone, _, rfl, hclosed, hrest⟩ := List.map_eq_cons_iff.mp hrest
  obtain rfl := List.map_eq_nil_iff.mp hrest
  replace hlistening : listener.socket.state = .listening := congrArg Prod.fst hlistening
  replace hclosed : gone.socket.state = .closed := congrArg Prod.fst hclosed
  refine ⟨listener, idle, gone, hall, fun m => ?_, fun m failure s' m' hrun => ?_, fun m => ?_⟩
  · have hkeeps := (keeps_to_diagram reaches_mixedStates (t := listener) (by simp [hall]) m).2.1
    rw [← hlistening]
    exact hkeeps (.connect (.unix .unnamed)) (by rw [hlistening]; rfl)
  · have hkeeps := (keeps_to_diagram reaches_mixedStates (t := idle) (by simp [hall]) m).1
    exact (hkeeps _ _ _ _ hrun).1 failure rfl
  · have hkeeps := (keeps_to_diagram reaches_mixedStates (t := gone) (by simp [hall]) m).2.2.2
    exact (hkeeps hclosed).1 .takeError

end Fleet

end PacedNet
