import PacedNet.Proofs.Socket.Script
import Mathlib.Data.List.Basic
import Mathlib.Logic.Relation

/-!
# Operations at the same time

Any number of operations are on their way, and at each moment one of them does its next step, or
something else happens to what they share (`Traffic.Step`). What one operation keeps to, whatever
the others do, is proved by going through it as it is written (`Script.Keeps`, `Script.keeps_bind`);
then it holds of that operation wherever the others are (`Traffic.abides_reaches`). A transfer is
made of rounds, and keeps to what each of them keeps to (`Script.keeps_transfer`).
-/

namespace PacedNet

variable {K : Type}

/-- A step that was done, with the states before and after it. -/
structure Moment (K : Type) where
  before : Machine K
  event : Event
  after : Machine K

namespace Script

variable {α β : Type}

/-- What a script keeps to while others leave the state in `inv`: each step leaves it so too and
does what `rule` allows after the moments before it, and the answer is as `post` says after all of
them. -/
def Keeps (inv : Machine K → Prop) (rule : List (Moment K) → Moment K → Prop)
    (post : List (Moment K) → Except Failure α → Prop) : List (Moment K) → Script K α → Prop
  | seen, ended answer => post seen answer
  | seen, next act rest => ∀ m, inv m → inv (act m).2 ∧ rule seen ⟨m, (act m).1, (act m).2⟩
      ∧ (rest m).Keeps inv rule post (seen ++ [⟨m, (act m).1, (act m).2⟩])

variable {inv : Machine K → Prop} {rule : List (Moment K) → Moment K → Prop}
  {post post' : List (Moment K) → Except Failure α → Prop} {seen : List (Moment K)}
  {s : Script K α}

theorem Keeps.mono (h : s.Keeps inv rule post seen)
    (hpost : ∀ seen answer, post seen answer → post' seen answer) :
    s.Keeps inv rule post' seen := by
  induction s generalizing seen with
  | ended answer => exact hpost _ _ h
  | next act rest ih =>
      intro m hm
      obtain ⟨hinv, hrule, hrest⟩ := h m hm
      exact ⟨hinv, hrule, ih m hrest⟩

/-- What is answered in each of several ways is answered in all of them. -/
theorem keeps_all {ι : Type} [Nonempty ι] {post : ι → List (Moment K) → Except Failure α → Prop}
    (h : ∀ i, s.Keeps inv rule (post i) seen) :
    s.Keeps inv rule (fun seen answer => ∀ i, post i seen answer) seen := by
  induction s generalizing seen with
  | ended answer => exact h
  | next act rest ih =>
      intro m hm
      obtain ⟨hinv, hrule, -⟩ := h (Classical.arbitrary ι) m hm
      exact ⟨hinv, hrule, ih m fun i => (h i m hm).2.2⟩

/-- One operation after the other. -/
theorem keeps_bind {f : α → Script K β} {post : List (Moment K) → Except Failure β → Prop}
    (h : s.Keeps inv rule (fun seen answer => match answer with
      | .ok a => (f a).Keeps inv rule post seen
      | .error e => post seen (.error e)) seen) :
    (s >>= f).Keeps inv rule post seen := by
  induction s generalizing seen with
  | ended answer =>
      cases answer with
      | ok a => exact h
      | error e => exact h
  | next act rest ih =>
      intro m hm
      obtain ⟨hinv, hrule, hrest⟩ := h m hm
      exact ⟨hinv, hrule, ih m hrest⟩

/-- One operation after the other, if the first leaves all well where it succeeds. -/
theorem Keeps.andThen {f : α → Script K β} {good : List (Moment K) → α → Prop}
    {post : List (Moment K) → Except Failure β → Prop}
    (h : s.Keeps inv rule (fun seen answer => ∀ a, answer = .ok a → good seen a) seen)
    (hf : ∀ seen a, good seen a → (f a).Keeps inv rule post seen)
    (herror : ∀ seen e, post seen (.error e)) : (s >>= f).Keeps inv rule post seen := by
  refine keeps_bind (h.mono fun seen answer hgood => ?_)
  cases answer with
  | ok a => exact hf seen a (hgood a rfl)
  | error e => exact herror seen e

/-- One operation after the other, where only the steps are looked at. -/
theorem keeps_seq {f : α → Script K β} (h : s.Keeps inv rule (fun _ _ => True) seen)
    (hf : ∀ a seen, (f a).Keeps inv rule (fun _ _ => True) seen) :
    (s >>= f).Keeps inv rule (fun _ _ => True) seen :=
  Keeps.andThen (h.mono fun _ _ _ _ _ => trivial) (fun seen a _ => hf a seen) fun _ _ => trivial

theorem keeps_step {event : Machine K → Except Failure α → Event} {act : Act K α}
    (h : ∀ m r m', inv m → act.run m = (r, m') →
      inv m' ∧ rule seen ⟨m, event m r, m'⟩ ∧ post (seen ++ [⟨m, event m r, m'⟩]) r) :
    (step event act).Keeps inv rule post seen :=
  fun m hm => h m _ _ hm rfl

/-! ### Transfers -/

variable [Kernel K] {link : Link}

/-- A stream keeps to what each of its rounds keeps to. -/
theorem keeps_stream {flags : Nat}
    (hround : ∀ pass rest, rest ≠ [] → ∀ seen,
      (round link flags pass rest : Script K Nat).Keeps inv rule (fun _ _ => True) seen)
    (pass : Option OpenFile) (report : SendReport) (rest : List UInt8) (seen : List (Moment K)) :
    (stream link flags pass report rest : Script K SendReport).Keeps inv rule (fun _ _ => True)
      seen := by
  -- each round leaves less to send
  induction hn : rest.length using Nat.strongRecOn generalizing pass report rest seen with
  | ind n ih =>
      subst hn
      cases rest with
      | nil =>
          rw [stream]
          trivial
      | cons b tail =>
          rw [stream]
          refine keeps_seq (hround pass _ (List.cons_ne_nil b tail) seen) fun sent seen => ?_
          dsimp only
          split
          · trivial
          · have hless : ((b :: tail).drop sent).length < (b :: tail).length := by
              rw [List.length_drop, List.length_cons]
              omega
            exact ih _ hless _ _ _ _ rfl

/-- A transfer keeps to what its parts keep to. -/
theorem keeps_transfer {parcel : Parcel}
    (hround : link.kind = .stream → ∀ pass rest, rest ≠ [] → ∀ seen,
      (round link parcel.flags pass rest : Script K Nat).Keeps inv rule (fun _ _ => True) seen)
    (hdatagram : link.kind = .datagram → ∀ seen,
      (datagram link parcel : Script K SendReport).Keeps inv rule (fun _ _ => True) seen)
    (hreply : ∀ seen,
      (awaitReply link : Script K Unit).Keeps inv rule (fun _ _ => True) seen)
    (acknowledge : Bool) (seen : List (Moment K)) :
    (transfer link parcel acknowledge : Script K SendReport).Keeps inv rule (fun _ _ => True)
      seen := by
  have hend : ∀ (report : SendReport) seen, (do
      if acknowledge then awaitReply link
      return report : Script K SendReport).Keeps inv rule (fun _ _ => True) seen := by
    intro report seen
    split
    · exact keeps_seq (hreply seen) fun _ _ => trivial
    · trivial
  unfold transfer
  cases hkind : link.kind with
  | stream => exact keeps_seq (keeps_stream (hround hkind) _ _ _ seen) hend
  | datagram => exact keeps_seq (hdatagram hkind seen) hend

end Script

/-- An operation of a socket on its way, with the steps it has done. -/
structure Task (K : Type) where
  socket : Socket
  op : Operation
  done : List (Moment K)
  script : Script K Outcome

/-- What an operation has answered, if it has succeeded. -/
def Task.outcome? (t : Task K) : Option Outcome :=
  match t.script with
  | .ended (.ok outcome) => some outcome
  | _ => none

/-- The operation after one more step. -/
def Task.after (t : Task K) (x : Moment K) (script : Script K Outcome) : Task K :=
  { t with done := t.done ++ [x], script }

/-- Operations on their way, and all steps that were done so far, in their order. -/
structure Traffic (K : Type) where
  machine : Machine K
  tasks : List (Task K)
  log : List (Moment K)

namespace Traffic

/-- Before any operation. -/
def start (m : Machine K) : Traffic K := ⟨m, [], []⟩

variable [Kernel K] in
/-- One more operation, of which a receive may go on for `more` chunks that come meanwhile. -/
def setOut (c : Traffic K) (s : Socket) (op : Operation) (more : Nat) : Traffic K :=
  { c with tasks := c.tasks ++ [⟨s, op, [], op.script s more⟩] }

/-- The next step of one of the operations. -/
def proceed (c : Traffic K) (i : Nat) (t : Task K) (act : Machine K → Event × Machine K)
    (rest : Machine K → Script K Outcome) : Traffic K :=
  let x : Moment K := ⟨c.machine, (act c.machine).1, (act c.machine).2⟩
  { machine := x.after
    tasks := c.tasks.set i (t.after x (rest c.machine))
    log := c.log ++ [x] }

/-- The next step of one of the operations, if it has one. -/
def advance (c : Traffic K) (i : Nat) : Traffic K :=
  match c.tasks[i]? with
  | none => c
  | some t =>
    match t.script with
    | .ended _ => c
    | .next act rest => c.proceed i t act rest

/-- What may happen: an operation that `admits` lets in sets out, one does its next step, or what
they share changes on the side as `aside` says. -/
inductive Step [Kernel K] (admits : Socket → Operation → Prop)
    (aside : Machine K → Machine K → Prop) : Traffic K → Traffic K → Prop where
  | setOut (c : Traffic K) {s : Socket} {op : Operation} (more : Nat) : admits s op →
      Step admits aside c (c.setOut s op more)
  | proceed (c : Traffic K) {i : Nat} {t : Task K} {act : Machine K → Event × Machine K}
      {rest : Machine K → Script K Outcome} : c.tasks[i]? = some t → t.script = .next act rest →
      Step admits aside c (c.proceed i t act rest)
  | aside (c : Traffic K) {m : Machine K} : aside c.machine m →
      Step admits aside c { c with machine := m }

/-- A state that traffic may come to. -/
abbrev Reaches [Kernel K] (admits : Socket → Operation → Prop)
    (aside : Machine K → Machine K → Prop) (c c' : Traffic K) : Prop :=
  Relation.ReflTransGen (Step admits aside) c c'

section

variable [Kernel K] {admits : Socket → Operation → Prop} {aside : Machine K → Machine K → Prop}
  {c c' : Traffic K}

theorem Reaches.setOut (h : Reaches admits aside c c') {s : Socket} {op : Operation} (more : Nat)
    (hop : admits s op) : Reaches admits aside c (c'.setOut s op more) :=
  h.tail (.setOut c' more hop)

theorem Reaches.advance (h : Reaches admits aside c c') (turns : List Nat) :
    Reaches admits aside c (turns.foldl advance c') := by
  induction turns generalizing c' with
  | nil => exact h
  | cons i turns ih =>
      refine ih ?_
      unfold Traffic.advance
      split
      · exact h
      · rename_i hi
        split
        · exact h
        · rename_i hnext
          exact h.tail (.proceed c' hi hnext)

end

end Traffic

variable {inv : Machine K → Prop} {rule : Socket → Operation → List (Moment K) → Moment K → Prop}
  {post : Socket → Operation → List (Moment K) → Except Failure Outcome → Prop}

/-- An operation has kept to its rules so far, and will. -/
structure Task.Abides (inv : Machine K → Prop)
    (rule : Socket → Operation → List (Moment K) → Moment K → Prop)
    (post : Socket → Operation → List (Moment K) → Except Failure Outcome → Prop)
    (t : Task K) : Prop where
  keeps : t.script.Keeps inv (rule t.socket t.op) (post t.socket t.op) t.done
  obeyed : ∀ earlier x later, t.done = earlier ++ x :: later → rule t.socket t.op earlier x

/-- An operation that has ended answers as it should. -/
theorem Task.Abides.answer {t : Task K} (h : t.Abides inv rule post)
    {answer : Except Failure Outcome} (hended : t.script = .ended answer) :
    post t.socket t.op t.done answer := by
  have hkeeps := h.keeps
  rwa [hended] at hkeeps

/-- The next step of an operation that keeps to its rules. -/
theorem Task.Abides.proceed {t : Task K} (h : t.Abides inv rule post) {m : Machine K} (hm : inv m)
    {act : Machine K → Event × Machine K} {rest : Machine K → Script K Outcome}
    (hnext : t.script = .next act rest) :
    inv (act m).2 ∧ rule t.socket t.op t.done ⟨m, (act m).1, (act m).2⟩
      ∧ (t.after ⟨m, (act m).1, (act m).2⟩ (rest m)).Abides inv rule post := by
  have hkeeps := h.keeps
  rw [hnext] at hkeeps
  obtain ⟨hinv, hrule, hrest⟩ := hkeeps m hm
  refine ⟨hinv, hrule, hrest, fun earlier x later hx => ?_⟩
  -- the step is the new one or one of those before it
  rcases List.eq_nil_or_concat later with rfl | ⟨init, last, rfl⟩
  · obtain ⟨hearlier, hlast⟩ := List.append_inj' hx rfl
    injection hlast with hlast _
    subst hearlier hlast
    exact hrule
  · rw [List.concat_eq_append, ← List.cons_append, ← List.append_assoc] at hx
    obtain ⟨hearlier, -⟩ := List.append_inj' hx rfl
    exact h.obeyed _ _ _ hearlier

namespace Traffic

/-- All operations have kept to their rules so far, and will. -/
structure Abides (inv : Machine K → Prop)
    (rule : Socket → Operation → List (Moment K) → Moment K → Prop)
    (post : Socket → Operation → List (Moment K) → Except Failure Outcome → Prop)
    (c : Traffic K) : Prop where
  state : inv c.machine
  tasks : ∀ t ∈ c.tasks, t.Abides inv rule post

variable [Kernel K] {admits : Socket → Operation → Prop} {aside : Machine K → Machine K → Prop}
  {c c' : Traffic K}

theorem abides_step
    (hops : ∀ s op more, admits s op → (op.script s more).Keeps inv (rule s op) (post s op) [])
    (haside : ∀ m m', inv m → aside m m' → inv m') (h : Abides inv rule post c)
    (hstep : Step admits aside c c') : Abides inv rule post c' := by
  cases hstep with
  | setOut more hadmits =>
      refine ⟨h.state, fun t ht => ?_⟩
      rcases List.mem_append.mp ht with hold | hnew
      · exact h.tasks t hold
      · obtain rfl := List.mem_singleton.mp hnew
        exact ⟨hops _ _ more hadmits, fun earlier x later hx => absurd hx (by simp)⟩
  | proceed hi hnext =>
      obtain ⟨hinv, -, htask⟩ := (h.tasks _ (List.mem_of_getElem? hi)).proceed h.state hnext
      refine ⟨hinv, fun t ht => ?_⟩
      rcases List.mem_or_eq_of_mem_set ht with hold | rfl
      · exact h.tasks t hold
      · exact htask
  | aside hm => exact ⟨haside _ _ h.state hm, h.tasks⟩

/-- **Whatever happens, the rules are kept**, if each operation that is let in keeps to them where
others leave the state in order. -/
theorem abides_reaches
    (hops : ∀ s op more, admits s op → (op.script s more).Keeps inv (rule s op) (post s op) [])
    (haside : ∀ m m', inv m → aside m m' → inv m') {m : Machine K} (hm : inv m)
    (h : Reaches admits aside (start m) c) : Abides inv rule post c := by
  induction h with
  | refl => exact ⟨hm, fun t ht => absurd ht (by simp [start])⟩
  | tail _ hstep ih => exact abides_step hops haside ih hstep

end Traffic

end PacedNet
