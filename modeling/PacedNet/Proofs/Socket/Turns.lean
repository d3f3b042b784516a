import PacedNet.Proofs.Host.Passing
import PacedNet.Proofs.Socket.Delivery

/-!
# Descriptors one after the other

On one side of a stream sends follow each other, on the other side receives that ask for a
descriptor, and the two sides come between each other as they like (`Traffic.TakesTurns`). What the
sends hand over is, in order, what the receives get hold of and what is still on its way. A receive
answers the first descriptor that it gets hold of, so none is answered out of order
(`Traffic.descriptors_in_order`). But whatever else it comes to is gone: a peer that sends two
descriptors before the first is asked for loses the second (`Traffic.second_descriptor_lost`).
-/

namespace PacedNet

variable {K : Type} {a b : Descriptor} {up : K → Prop} {files : K → List OpenFile}

namespace Operation

/-- The side that an operation is on. -/
def side : Operation → Side
  | send _ _ => .sending
  | carry _ => .sending
  | _ => .receiving

/-- The descriptor that a send is to pass. -/
def pass : Operation → Option OpenFile
  | send _ options => options.pass
  | carry job => job.parcel.pass
  | _ => none

/-- A send at one end of a stream, or a receive at the other that asks for a descriptor. -/
inductive OnStream (a b : Descriptor) (s : Socket) : Operation → Prop where
  | send (p : Payload) (options : SendOptions) : s.descriptor = some a → s.kind = .stream →
      OnStream a b s (.send p options)
  | carry (job : Job) : job.link.descriptor = a → job.link.kind = .stream →
      OnStream a b s (.carry job)
  | receivePassed : s.descriptor = some b → s.kind = .stream → OnStream a b s .receivePassed

/-- What an operation has come to that handed over or got hold of these descriptors. -/
structure Comes (op : Operation) (got : List OpenFile) (answer : Except Failure Outcome) :
    Prop where
  /-- A send hands its descriptor over at most once, and does if it succeeds. -/
  sent : op.side = .sending → (got = [] ∨ got = op.pass.toList)
    ∧ ∀ outcome, answer = .ok outcome → got = op.pass.toList ∧ ∃ report, outcome = .report report
  /-- A receive that succeeds answers the first that it got hold of. -/
  received : op.side = .receiving → ∀ outcome, answer = .ok outcome →
    ∃ data file dropped, outcome = .passed data file ∧ got = file :: dropped

variable {s : Socket} {op : Operation}

theorem comes_error (e : Failure) : op.Comes [] (.error e) :=
  ⟨fun _ => ⟨.inl rfl, by simp⟩, by simp⟩

/-- What a transfer hands over is told by its operation. -/
theorem handles_report {pass : Option OpenFile} {script : Script K SendReport}
    (hside : op.side = .sending) (hpass : op.pass = pass)
    (h : script.Handles a b up files .sending fun more answer =>
      (more = [] ∨ more = pass.toList) ∧ ∀ report, answer = .ok report → more = pass.toList) :
    (script >>= fun report => pure (.report report)).Handles a b up files op.side op.Comes := by
  subst hpass
  have hother : op.side = .receiving → False := by
    rw [hside]
    exact fun hno => absurd hno (by decide)
  rw [hside]
  refine h.bind (fun more e hmore => ?_) fun more report hmore => ?_
  · exact ⟨fun _ => ⟨hmore.1, by simp⟩, fun hno => (hother hno).elim⟩
  · refine Script.handles_ended ⟨fun _ => ?_, fun hno => (hother hno).elim⟩
    rw [List.append_nil]
    exact ⟨hmore.1, fun outcome hout => ⟨hmore.2 report rfl, report, (Except.ok.inj hout).symm⟩⟩

variable [Kernel K]

/-- **Every operation on the stream** keeps account of the descriptors. -/
theorem handles_script (hK : Kernel.Passing a b up files) (hop : op.OnStream a b s) (more : Nat) :
    (op.script s more : Script K Outcome).Handles a b up files op.side op.Comes := by
  cases hop with
  | send p options hd hkind =>
      unfold script
      cases hlink : s.writer with
      | error e => exact Script.handles_ended (comes_error _)
      | ok link =>
          obtain rfl := Socket.link_eq_ok hd hlink
          exact handles_report rfl rfl
            (Script.handles_transfer hK rfl hkind (p.parcel options) s.acknowledge)
  | carry job hd hkind =>
      exact handles_report rfl rfl (Script.handles_transfer hK hd hkind job.parcel false)
  | receivePassed hd hkind =>
      have hother : receivePassed.side = .sending → False := fun hno => absurd hno (by decide)
      refine (Script.handles_receivePassed hK hd hkind more).bind (fun got e _ => ?_)
        fun got answer hgot => ?_
      · exact ⟨fun hno => (hother hno).elim, by simp⟩
      · refine Script.handles_ended ⟨fun hno => (hother hno).elim, fun _ outcome hout => ?_⟩
        obtain ⟨dropped, rfl⟩ := hgot answer.1 answer.2 rfl
        exact ⟨answer.1, answer.2, dropped, (Except.ok.inj hout).symm, List.append_nil _⟩

end Operation

namespace Task

/-- It has answered. -/
def hasEnded (t : Task K) : Bool :=
  match t.script with
  | .ended _ => true
  | .next _ _ => false

/-- The descriptors that an operation has handed over, or those that it got hold of. -/
def passed (a b : Descriptor) (files : K → List OpenFile) (side : Side) (t : Task K) :
    List OpenFile := t.done.flatMap (side.passed a b files)

/-- The descriptor that an operation has answered. -/
def returned (t : Task K) : Option OpenFile :=
  match t.outcome? with
  | some (.passed _ file) => some file
  | _ => none

/-- What an operation keeps to that is on a stream. -/
abbrev Accounts (a b : Descriptor) (up : K → Prop) (files : K → List OpenFile) (t : Task K) :
    Prop :=
  t.Abides (fun m => up m.kernel ∧ m.Proper)
    (fun _ op _ x => x.Squares a b files ∧ op.side.opposite.passed a b files x = [])
    (fun _ op done answer => op.Comes (done.flatMap (op.side.passed a b files)) answer)

variable {t : Task K} {side : Side}

/-- Nothing of the other side is done. -/
theorem Accounts.passed_opposite (h : t.Accounts a b up files) (hside : t.op.side ≠ side) :
    t.passed a b files side = [] := by
  refine List.flatMap_eq_nil_iff.mpr fun x hx => ?_
  obtain ⟨earlier, later, hdone⟩ := List.append_of_mem hx
  rw [← Side.opposite_eq hside]
  exact (h.obeyed earlier x later hdone).2

/-- What is answered is the first of what an operation got hold of. -/
theorem Accounts.returned_sublist (h : t.Accounts a b up files) :
    t.returned.toList.Sublist (t.passed a b files .receiving) := by
  unfold returned outcome?
  cases hscript : t.script with
  | next act rest => exact List.nil_sublist _
  | ended answer =>
      cases answer with
      | error e => exact List.nil_sublist _
      | ok outcome =>
          have hcomes := h.answer hscript
          cases hside : t.op.side with
          | sending =>
              obtain ⟨-, report, rfl⟩ := (hcomes.sent hside).2 outcome rfl
              exact List.nil_sublist _
          | receiving =>
              obtain ⟨data, file, dropped, rfl, hgot⟩ := hcomes.received hside outcome rfl
              unfold passed
              rw [hside] at hgot
              rw [hgot]
              exact List.singleton_sublist.mpr List.mem_cons_self

end Task

namespace Traffic

variable {c c' : Traffic K} {side : Side}

/-- On each side an operation sets out after those before it have ended. -/
def InTurn (c : Traffic K) : Prop :=
  c.tasks.Pairwise fun t u => t.op.side = u.op.side → t.hasEnded = true

/-- The operation that goes on is the last one on its side. -/
theorem InTurn.split (h : c.InTurn) {i : Nat} {t : Task K} (hi : c.tasks[i]? = some t)
    (hrunning : t.hasEnded = false) : ∃ front back, c.tasks = front ++ t :: back
      ∧ (∀ t', c.tasks.set i t' = front ++ t' :: back) ∧ ∀ u ∈ back, t.op.side ≠ u.op.side := by
  obtain ⟨hlt, rfl⟩ := List.getElem?_eq_some_iff.mp hi
  have hsplit : c.tasks = c.tasks.take i ++ c.tasks[i] :: c.tasks.drop (i + 1) := by
    rw [← List.drop_eq_getElem_cons hlt, List.take_append_drop]
  refine ⟨_, _, hsplit, fun t' => List.set_eq_take_append_cons_drop .. |>.trans (if_pos hlt),
    fun u hu hside => ?_⟩
  unfold InTurn at h
  rw [hsplit] at h
  have hended := (List.pairwise_cons.mp (List.pairwise_append.mp h).2.1).1 u hu hside
  exact absurd (hrunning.symm.trans hended) (by simp)

/-- A step leaves the order as it is. -/
theorem InTurn.proceed (h : c.InTurn) {i : Nat} {t : Task K} (hi : c.tasks[i]? = some t)
    {act : Machine K → Event × Machine K} {rest : Machine K → Script K Outcome}
    (hnext : t.script = .next act rest) : (c.proceed i t act rest).InTurn := by
  have hrunning : t.hasEnded = false := by
    unfold Task.hasEnded
    rw [hnext]
  obtain ⟨front, back, hsplit, hset, hlast⟩ := h.split hi hrunning
  unfold InTurn at h ⊢
  show (c.tasks.set i _).Pairwise _
  rw [hsplit, List.pairwise_append, List.pairwise_cons] at h
  obtain ⟨hfront, ⟨-, hback⟩, hacross⟩ := h
  rw [hset, List.pairwise_append, List.pairwise_cons]
  refine ⟨hfront, ⟨fun u hu hside => absurd hside (hlast u hu), hback⟩, fun v hv u hu => ?_⟩
  rcases List.mem_cons.mp hu with rfl | hu
  · exact hacross v hv t List.mem_cons_self
  · exact hacross v hv u (List.mem_cons_of_mem _ hu)

/-- The descriptors of one side, operation by operation. -/
def passed (a b : Descriptor) (files : K → List OpenFile) (side : Side) (c : Traffic K) :
    List OpenFile := c.tasks.flatMap (Task.passed a b files side)

/-- The descriptors that receives have answered, in their order. -/
def returned (c : Traffic K) : List OpenFile := c.tasks.flatMap fun t => t.returned.toList

/-- What is passed by the operation that goes on is the last of its side. -/
theorem passed_proceed (h : c.InTurn) (haccounts : ∀ t ∈ c.tasks, t.Accounts a b up files)
    {i : Nat} {t : Task K} (hi : c.tasks[i]? = some t) {act : Machine K → Event × Machine K}
    {rest : Machine K → Script K Outcome} (hnext : t.script = .next act rest)
    (hother : t.op.side.opposite.passed a b files
      ⟨c.machine, (act c.machine).1, (act c.machine).2⟩ = []) :
    (c.proceed i t act rest).passed a b files side
      = c.passed a b files side
        ++ side.passed a b files ⟨c.machine, (act c.machine).1, (act c.machine).2⟩ := by
  have hrunning : t.hasEnded = false := by
    unfold Task.hasEnded
    rw [hnext]
  obtain ⟨front, back, hsplit, hset, hlast⟩ := h.split hi hrunning
  let x : Moment K := ⟨c.machine, (act c.machine).1, (act c.machine).2⟩
  have htask : (t.after x (rest c.machine)).passed a b files side
      = t.passed a b files side ++ side.passed a b files x := by
    unfold Task.passed Task.after
    rw [List.flatMap_append, List.flatMap_singleton]
  have hback : back.flatMap (Task.passed a b files side) ++ side.passed a b files x
      = side.passed a b files x ++ back.flatMap (Task.passed a b files side) := by
    by_cases hside : t.op.side = side
    · have hnone : back.flatMap (Task.passed a b files side) = [] :=
        List.flatMap_eq_nil_iff.mpr fun u hu =>
          (haccounts u (hsplit ▸ by simp [hu])).passed_opposite fun hsame =>
            hlast u hu (hside.trans hsame.symm)
      rw [hnone, List.nil_append, List.append_nil]
    · rw [Side.opposite_eq hside] at hother
      rw [hother, List.nil_append, List.append_nil]
  unfold passed
  show (c.tasks.set i (t.after x (rest c.machine))).flatMap _ = _
  rw [hset, hsplit, List.flatMap_append, List.flatMap_cons, htask, List.flatMap_append,
    List.flatMap_cons]
  simp only [List.append_assoc]
  rw [hback]

section

variable [Kernel K]

/-- A run in which the operations of each side take turns. -/
abbrev TakesTurns (admits : Socket → Operation → Prop) (aside : Machine K → Machine K → Prop)
    (c c' : Traffic K) : Prop :=
  Relation.ReflTransGen (fun c c' => Step admits aside c c' ∧ c'.InTurn) c c'

variable {admits : Socket → Operation → Prop} {aside : Machine K → Machine K → Prop}
  {m : Machine K}

theorem TakesTurns.reaches (h : TakesTurns admits aside c c') : Reaches admits aside c c' := by
  induction h with
  | refl => exact .refl
  | tail _ hstep ih => exact ih.tail hstep.1

theorem TakesTurns.inTurn (h : TakesTurns admits aside (start m) c) : c.InTurn := by
  cases h with
  | refl => exact List.Pairwise.nil
  | tail _ hstep => exact hstep.2

theorem TakesTurns.setOut (h : TakesTurns admits aside (start m) c) {s : Socket} {op : Operation}
    (more : Nat) (hop : admits s op)
    (hturn : ∀ t ∈ c.tasks, t.op.side = op.side → t.hasEnded = true) :
    TakesTurns admits aside (start m) (c.setOut s op more) := by
  refine h.tail ⟨.setOut c more hop, List.pairwise_append.mpr ⟨h.inTurn, by simp, ?_⟩⟩
  intro t ht u hu
  obtain rfl := List.mem_singleton.mp hu
  exact hturn t ht

theorem TakesTurns.advance (h : TakesTurns admits aside (start m) c) (turns : List Nat) :
    TakesTurns admits aside (start m) (turns.foldl advance c) := by
  induction turns generalizing c with
  | nil => exact h
  | cons i turns ih =>
      refine ih ?_
      unfold Traffic.advance
      split
      · exact h
      · rename_i hi
        split
        · exact h
        · rename_i hnext
          exact h.tail ⟨.proceed c hi hnext, h.inTurn.proceed hi hnext⟩

/-- What happens on the side leaves the stream and the descriptors on it alone. -/
structure LeavesFiles (up : K → Prop) (files : K → List OpenFile) (m m' : Machine K) : Prop where
  up : up m'.kernel
  proper : m'.Proper
  files : files m'.kernel = files m.kernel

theorem accounts (hK : Kernel.Passing a b up files) (hup : up m.kernel) (hproper : m.Proper)
    (h : Reaches (Operation.OnStream a b) (LeavesFiles up files) (start m) c) :
    (up c.machine.kernel ∧ c.machine.Proper) ∧ ∀ t ∈ c.tasks, t.Accounts a b up files := by
  have habides : Abides (fun m => up m.kernel ∧ m.Proper)
      (fun _ op _ x => x.Squares a b files ∧ op.side.opposite.passed a b files x = [])
      (fun _ op done answer => op.Comes (done.flatMap (op.side.passed a b files)) answer) c := by
    refine abides_reaches (fun s op more hop => ?_) (fun _ _ _ hm => ⟨hm.up, hm.proper⟩)
      ⟨hup, hproper⟩ h
    refine (Operation.handles_script hK hop more []).mono fun done answer hdone => ?_
    obtain ⟨got, hgot, hcomes⟩ := hdone
    rw [hgot]
    exact hcomes
  exact ⟨habides.state, habides.tasks⟩

theorem passed_setOut (s : Socket) (op : Operation) (more : Nat) :
    (c.setOut s op more).passed a b files side = c.passed a b files side := by
  unfold passed Traffic.setOut
  rw [List.flatMap_append]
  exact List.append_nil _

/-- **Nothing is lost on the way.** What was on its way and what is handed over is, in order, what
receives get hold of and what is on its way now. -/
theorem passed_balance (hK : Kernel.Passing a b up files) (hup : up m.kernel) (hproper : m.Proper)
    (h : TakesTurns (Operation.OnStream a b) (LeavesFiles up files) (start m) c) :
    files m.kernel ++ c.passed a b files .sending
      = c.passed a b files .receiving ++ files c.machine.kernel := by
  induction h with
  | refl => exact List.append_nil _
  | tail hbefore hstep ih =>
      obtain ⟨hstate, haccounts⟩ := accounts hK hup hproper (TakesTurns.reaches hbefore)
      cases hstep.1 with
      | setOut more _ =>
          rw [passed_setOut, passed_setOut]
          exact ih
      | aside hm =>
          rw [← hm.files] at ih
          exact ih
      | proceed hi hnext =>
          have hinTurn := TakesTurns.inTurn hbefore
          obtain ⟨-, ⟨hsquares, hother⟩, -⟩ :=
            (haccounts _ (List.mem_of_getElem? hi)).proceed hstate hnext
          rw [passed_proceed hinTurn haccounts hi hnext hother,
            passed_proceed hinTurn haccounts hi hnext hother, ← List.append_assoc, ih,
            List.append_assoc, List.append_assoc]
          exact congrArg _ hsquares

/-- Of two lists of lists the one is contained in the other if each is. -/
theorem flatMap_sublist {α β : Type} {f g : α → List β} {l : List α}
    (h : ∀ x ∈ l, (f x).Sublist (g x)) : (l.flatMap f).Sublist (l.flatMap g) := by
  induction l with
  | nil => exact List.Sublist.refl _
  | cons x l ih =>
      rw [List.flatMap_cons, List.flatMap_cons]
      exact (h x List.mem_cons_self).append (ih fun y hy => h y (List.mem_cons_of_mem _ hy))

/-- **Descriptors are answered in order, but only one a receive.** Sends follow each other on one
side of a stream and receives on the other; the two sides come between each other as they like.

* What was on its way and what the sends hand over is, in order, what the receives get hold of and
  what is on its way now.
* A send hands its descriptor over at most once, and does if it succeeds. A receive that succeeds
  answers the first descriptor that it gets hold of.
* So the descriptors that receives answer, and those on their way, are among those handed over and
  in their order. They are all of them if no receive gets hold of one that it does not answer. -/
theorem descriptors_in_order (hK : Kernel.Passing a b up files) (hup : up m.kernel)
    (hproper : m.Proper)
    (h : TakesTurns (Operation.OnStream a b) (LeavesFiles up files) (start m) c) :
    files m.kernel ++ c.passed a b files .sending
        = c.passed a b files .receiving ++ files c.machine.kernel
      ∧ (∀ t ∈ c.tasks, ∀ answer, t.script = .ended answer →
          t.op.Comes (t.passed a b files t.op.side) answer)
      ∧ (c.returned ++ files c.machine.kernel).Sublist
          (files m.kernel ++ c.passed a b files .sending)
      ∧ ((∀ t ∈ c.tasks, (t.passed a b files .receiving).length ≤ t.returned.toList.length) →
          files m.kernel ++ c.passed a b files .sending
            = c.returned ++ files c.machine.kernel) := by
  have hbalance := passed_balance hK hup hproper h
  obtain ⟨-, haccounts⟩ := accounts hK hup hproper h.reaches
  have hreturned : ∀ t ∈ c.tasks, t.returned.toList.Sublist (t.passed a b files .receiving) :=
    fun t ht => (haccounts t ht).returned_sublist
  refine ⟨hbalance, fun t ht answer hended => (haccounts t ht).answer hended, ?_, fun hall => ?_⟩
  · rw [hbalance]
    exact (flatMap_sublist hreturned).append_right _
  · rw [hbalance]
    congr 1
    exact List.flatMap_congr fun t ht => ((hreturned t ht).eq_of_length_le (hall t ht)).symm

end

/-- Two connected streams and two files, and a quota of eight octets a second. -/
def twoFiles : Machine Host :=
  { Machine.start { Host.pair with contents := [[0x41], [0x42]] } with
    quotas := [.unlimited 0 (.clamp 8)] }

/-- A send of the first file, and one of the second that comes between the steps of the first
receive. The second receive is left to get it. -/
def fileByFile : Traffic Host :=
  [3, 3, 3, 3, 3, 3, 3, 3].foldl advance
    (([2, 1, 2, 1, 2, 1, 1, 1, 1, 2].foldl advance
      ((([0, 0, 0, 0].foldl advance
        ((start twoFiles).setOut (.endOf 0 (some 0)) (.send (.single [1]) ⟨0, some 0⟩) 0)).setOut
        (.endOf 1 none) .receivePassed 0).setOut
        (.endOf 0 (some 0)) (.send (.single [2]) ⟨0, some 1⟩) 0)).setOut
      (.endOf 1 none) .receivePassed 0)

example : fileByFile.tasks.map Task.outcome? = [some (.report ⟨1, 1, 1⟩), some (.passed [1] 0),
    some (.report ⟨1, 1, 1⟩), some (.passed [2] 1)] := by decide +kernel

theorem proper_twoFiles : twoFiles.Proper := by
  refine Machine.proper_of_fractions fun q hq => ?_
  obtain rfl := List.mem_singleton.mp hq
  show (0 : Rat) ≤ 1
  decide

theorem linked_twoFiles : Host.Linked 0 1 twoFiles.kernel :=
  ⟨by decide, ⟨_, rfl, rfl, rfl, by decide⟩, _, rfl, rfl, rfl, by decide⟩

theorem takesTurns_fileByFile : TakesTurns (Operation.OnStream 0 1)
    (LeavesFiles (Host.Linked 0 1) (Host.filesTo 1)) (start twoFiles) fileByFile :=
  .advance (.setOut (.advance (.setOut (.setOut (.advance (.setOut .refl
    0 (.send _ _ rfl rfl) (by decide)) _)
    0 (.receivePassed rfl rfl) (by decide +kernel))
    0 (.send _ _ rfl rfl) (by decide +kernel)) _)
    0 (.receivePassed rfl rfl) (by decide +kernel)) _

/-- What is sent between two receives is left for the second. -/
theorem descriptors_in_order_fileByFile :
    twoFiles.kernel.filesTo 1 ++ fileByFile.passed 0 1 (Host.filesTo 1) .sending
        = fileByFile.returned ++ fileByFile.machine.kernel.filesTo 1
      ∧ ∀ t ∈ fileByFile.tasks, ∀ answer, t.script = .ended answer →
          t.op.Comes (t.passed 0 1 (Host.filesTo 1) t.op.side) answer := by
  obtain ⟨-, hcomes, -, hall⟩ := descriptors_in_order (Host.passing 0 1)
    linked_twoFiles proper_twoFiles takesTurns_fileByFile
  exact ⟨hall (by decide +kernel), hcomes⟩

/-- Two sends of files, and a receive after both. -/
def bothBeforeReceive : Traffic Host :=
  [2, 2, 2, 2, 2, 2, 2, 2, 2, 2].foldl advance
    (([1, 1, 1, 1].foldl advance
      (([0, 0, 0, 0].foldl advance
        ((start twoFiles).setOut (.endOf 0 none) (.send (.single [1]) ⟨0, some 0⟩) 0)).setOut
        (.endOf 0 none) (.send (.single [2]) ⟨0, some 1⟩) 0)).setOut
      (.endOf 1 none) .receivePassed 0)

/-- **A descriptor that waits behind another is lost.** Both sends succeed, and a receive takes all
that they have sent, but it answers the first descriptor only. -/
theorem second_descriptor_lost :
    TakesTurns (Operation.OnStream 0 1) (LeavesFiles (Host.Linked 0 1) (Host.filesTo 1))
        (start twoFiles) bothBeforeReceive
      ∧ bothBeforeReceive.tasks.map Task.outcome? = [some (.report ⟨1, 1, 1⟩), some (.report ⟨1, 1, 1⟩),
        some (.passed [1, 2] 0)]
      ∧ bothBeforeReceive.passed 0 1 (Host.filesTo 1) .sending = [0, 1]
      ∧ bothBeforeReceive.machine.kernel.filesTo 1 = []
      ∧ twoFiles.kernel.filesTo 1 ++ bothBeforeReceive.passed 0 1 (Host.filesTo 1) .sending
        ≠ bothBeforeReceive.returned ++ bothBeforeReceive.machine.kernel.filesTo 1 :=
  ⟨.advance (.setOut (.advance (.setOut (.advance (.setOut .refl
    0 (.send _ _ rfl rfl) (by decide)) _) 0 (.send _ _ rfl rfl) (by decide +kernel)) _)
    0 (.receivePassed rfl rfl) (by decide +kernel)) _,
    by decide +kernel, by decide +kernel, by decide +kernel, by decide +kernel⟩

end Traffic

end PacedNet
