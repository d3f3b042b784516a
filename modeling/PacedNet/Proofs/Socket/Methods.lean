import PacedNet.Proofs.Socket.Acting

/-!
# Operations that change their socket

A method changes its socket field by field, and what it changed before it failed stays changed. That
none leaves a socket half changed is a matter of order: whatever may fail comes before the first
change. What each method makes of its socket, and which calls of the kernel it makes, is said once
here; a method that is refused by the state makes none.
-/

namespace PacedNet

variable {K : Type} {α : Type} {s s' : Socket} {m m' : Machine K} {stage : Stage}
  {allowed : State → Bool}

/-- A call of the kernel, with what it answered. -/
structure Machine.Calls (f : K → Except Errno α × K) (answer : Except Errno α)
    (m m' : Machine K) : Prop where
  answered : f m.kernel = (answer, m'.kernel)
  frame : m' = { m with kernel := m'.kernel }

/-- A run of a call, by what the kernel answered. -/
theorem Act.calls_of_run {f : K → Except Errno α × K} {toError : Errno → SocketError}
    {r : Except Failure α} (h : (call f toError).run m = (r, m')) :
    (∃ errno, m.Calls f (.error errno) m' ∧ r = .error (.socket (toError errno)))
      ∨ ∃ a, m.Calls f (.ok a) m' ∧ r = .ok a := by
  rw [run_call_eq] at h
  injection h with hr hm
  subst hr hm
  cases hanswer : (f m.kernel).1 with
  | error errno => exact .inl ⟨errno, ⟨Prod.ext hanswer rfl, rfl⟩, rfl⟩
  | ok a => exact .inr ⟨a, ⟨Prod.ext hanswer rfl, rfl⟩, rfl⟩

/-- Whatever a call answers, it changes the kernel and nothing else. -/
theorem Act.frame_of_run {f : K → Except Errno α × K} {toError : Errno → SocketError}
    {r : Except Failure α} (h : (call f toError).run m = (r, m')) :
    m'.kernel = (f m.kernel).2 ∧ m' = { m with kernel := m'.kernel } := by
  rw [run_call_eq] at h
  injection h with _ hm
  subst hm
  exact ⟨rfl, rfl⟩

/-- A run of a call that cannot fail. -/
theorem Act.run_attempt {f : K → α × K} {r : Except Failure α}
    (h : (attempt f).run m = (r, m')) :
    r = .ok (f m.kernel).1 ∧ m' = { m with kernel := (f m.kernel).2 } := by
  unfold attempt at h
  rw [run_get_bind] at h
  injection h with hr hm
  exact ⟨hr.symm, hm.symm⟩

/-- A run of a call whose error is no failure. -/
theorem Act.calls_of_attempt {f : K → Except Errno α × K} {r : Except Failure (Except Errno α)}
    (h : (attempt f).run m = (r, m')) : ∃ answer, r = .ok answer ∧ m.Calls f answer m' := by
  obtain ⟨rfl, rfl⟩ := run_attempt h
  exact ⟨_, rfl, rfl, rfl⟩

/-- A run of a computation that may fail changes nothing. -/
theorem Act.run_ofExcept {x : Except SocketError α} {r : Except Failure α}
    (h : (ofExcept (K := K) x).run m = (r, m')) : m' = m ∧ ∀ a, r = .ok a → x = .ok a := by
  cases x with
  | ok b =>
      injection h with hr hm
      refine ⟨hm.symm, fun a ha => ?_⟩
      rw [Except.ok.inj (hr.trans ha)]
  | error e =>
      injection h with hr hm
      exact ⟨hm.symm, fun a ha => absurd (hr.trans ha) (by simp)⟩

/-! ## Endpoints that are looked up -/

/-- What an endpoint may be found to be: itself, or an address of the family for a host name. -/
inductive Endpoint.Finds (family : Family) : Endpoint → Endpoint → Prop where
  | itself {e : Endpoint} : e.family?.isSome = true → Finds family e e
  | address {name : String} {port : UInt16} {a : Internet} :
      (ofInternet a).family? = some family → Finds family (host name port) (ofInternet a)

/-- What looking an endpoint up comes to: nothing, or one question for the name of a host. -/
inductive Endpoint.LooksUp [Kernel K] (k : K) : Endpoint → K → Prop where
  | known {e : Endpoint} : LooksUp k e k
  | asked {name : String} {port : UInt16} : Internet.ofName? name port = none →
      LooksUp k (host name port) (Kernel.lookUp name port k).2

/-- Looking an endpoint up changes the kernel at most. -/
structure Machine.LooksUp [Kernel K] (m : Machine K) (e : Endpoint) (m' : Machine K) : Prop where
  kernel : Endpoint.LooksUp m.kernel e m'.kernel
  frame : m' = { m with kernel := m'.kernel }

namespace Machine.LooksUp

variable [Kernel K]

theorem known {e : Endpoint} : m.LooksUp e m := ⟨.known, rfl⟩

theorem asked {name : String} {port : UInt16} (h : Internet.ofName? name port = none) :
    m.LooksUp (.host name port) { m with kernel := (Kernel.lookUp name port m.kernel).2 } :=
  ⟨.asked h, rfl⟩

end Machine.LooksUp

namespace Endpoint

/-- Only the local name that is asked for is found when a local name is looked up. -/
theorem Finds.eq_unix {e : Endpoint} {family : Family} {a : UnixAddress}
    (h : e.Finds family (.unix a)) : e = .unix a := by
  generalize hfound : unix a = found at h
  cases h with
  | itself => rfl
  | @address name port b => cases b <;> cases hfound

/-- What is picked is one of the addresses, of the family. -/
theorem pick_eq_ok {e picked : Endpoint} {family : Family}
    {found : Except String (List Internet)} (h : e.pick family found = .ok picked) :
    ∃ addresses a, found = .ok addresses ∧ a ∈ addresses ∧ picked = ofInternet a
      ∧ picked.family? = some family := by
  cases found with
  | error reason => exact absurd h (by simp [pick])
  | ok addresses =>
      unfold pick at h
      dsimp only at h
      split at h
      · rename_i b hb
        injection h with h
        subst h
        have hfamily := List.find?_some (p := fun x : Endpoint => x.family? == some family) hb
        obtain ⟨a, ha, rfl⟩ := List.mem_map.mp (List.mem_of_find?_eq_some hb)
        exact ⟨addresses, a, rfl, ha, rfl, beq_iff_eq.mp hfamily⟩
      · exact absurd h (by simp)

variable [Kernel K]

/-- **Looking an endpoint up.** -/
theorem run_resolve {e : Endpoint} {family : Family} {r : Except Failure Endpoint}
    (h : (e.resolve family : Act K Endpoint).run m = (r, m')) :
    m.LooksUp e m' ∧ ∀ found, r = .ok found → e.Finds family found := by
  cases e with
  | host name port =>
      unfold resolve at h
      dsimp only at h
      split at h
      · injection h with hr hm
        exact ⟨hm ▸ .known, fun found hfound => absurd (hr.trans hfound) (by simp)⟩
      · have hpicked {found : Except String (List Internet)} {m₁ : Machine K}
            (hrun : (Act.ofExcept ((host name port).pick family found) : Act K Endpoint).run m₁
              = (r, m')) :
            m' = m₁ ∧ ∀ a, r = .ok a → (host name port).Finds family a := by
          obtain ⟨hm, hok⟩ := Act.run_ofExcept hrun
          refine ⟨hm, fun a ha => ?_⟩
          obtain ⟨-, b, -, -, rfl, hfamily⟩ := pick_eq_ok (hok a ha)
          exact .address hfamily
        cases hname : Internet.ofName? name port with
        | some a =>
            rw [hname] at h
            obtain ⟨rfl, hfinds⟩ := hpicked h
            exact ⟨.known, hfinds⟩
        | none =>
            rw [hname] at h
            rcases run_bind h with ⟨found, m₁, hask, hrest⟩ | ⟨failure, hask, -⟩
            · obtain ⟨-, rfl⟩ := Act.run_attempt hask
              obtain ⟨rfl, hfinds⟩ := hpicked hrest
              exact ⟨.asked hname, hfinds⟩
            · exact absurd (Act.run_attempt hask).1 (by simp)
  | _ =>
      injection h with hr hm
      refine ⟨hm ▸ .known, fun found hfound => ?_⟩
      obtain rfl := Except.ok.inj (hr.trans hfound)
      exact .itself rfl

end Endpoint

/-! ## What a socket is asked before anything is done -/

namespace Socket

/-- An operation that the state does not allow does nothing. -/
theorem run_expect_refused (h : allowed s.state = false) :
    (s.expect stage allowed : Act K Descriptor).run m
      = (.error (.socket (.invalidState stage s.state)), m) := by
  unfold expect
  cases s.descriptor with
  | none => rfl
  | some d => rw [h]; rfl

theorem run_expect {r : Except Failure Descriptor}
    (h : (s.expect stage allowed : Act K Descriptor).run m = (r, m')) :
    m' = m ∧ ((∃ d, r = .ok d ∧ s.descriptor = some d ∧ allowed s.state = true)
      ∨ r = .error (.socket (.invalidState stage s.state))) := by
  unfold expect at h
  split at h
  · rename_i d hd
    split at h
    · rename_i hallowed
      injection h with hr hm
      exact ⟨hm.symm, .inl ⟨d, hr.symm, hd, hallowed⟩⟩
    · injection h with hr hm
      exact ⟨hm.symm, .inr hr.symm⟩
  · injection h with hr hm
    exact ⟨hm.symm, .inr hr.symm⟩

/-- What the kernel is given has been looked up and fits. -/
theorem run_target [Kernel K] {e : Endpoint} {r : Except Failure Endpoint}
    (h : (s.target e : Act K Endpoint).run m = (r, m')) :
    m.LooksUp e m' ∧ ∀ found, r = .ok found →
      e.Finds s.family found ∧ found.family? = some s.family ∧ found.raw?.isSome = true := by
  rcases run_bind h with ⟨found, m₁, hresolve, hchecks⟩ | ⟨failure, hresolve, rfl⟩
  · obtain ⟨hlooks, hfinds⟩ := Endpoint.run_resolve hresolve
    split at hchecks
    · injection hchecks with hr hm
      exact ⟨hm ▸ hlooks, fun a ha => absurd (hr.trans ha) (by simp)⟩
    · rename_i hfamily
      split at hchecks
      · injection hchecks with hr hm
        exact ⟨hm ▸ hlooks, fun a ha => absurd (hr.trans ha) (by simp)⟩
      · rename_i hraw
        injection hchecks with hr hm
        refine ⟨hm ▸ hlooks, fun a ha => ?_⟩
        obtain rfl := Except.ok.inj (hr.trans ha)
        exact ⟨hfinds _ rfl, by simpa using hfamily,
          by simpa [Option.isSome_iff_ne_none] using hraw⟩
  · exact ⟨(Endpoint.run_resolve hresolve).1, fun a ha => absurd ha (by simp)⟩

end Socket

namespace Method

variable {r : Except Failure Unit}

/-- What is done to the shared state leaves the socket alone. -/
theorem run_act_bind {f : Act K α} {next : α → Method K Unit}
    (h : (act f >>= next).run (s, m) = (r, (s', m'))) :
    (∃ a m₁, f.run m = (.ok a, m₁) ∧ (next a).run (s, m₁) = (r, (s', m')))
      ∨ ∃ e, f.run m = (.error e, m') ∧ r = .error e ∧ s' = s := by
  have hact : ∀ {answer x}, (act f).run (s, m) = (answer, x) →
      x.1 = s ∧ f.run m = (answer, x.2) := by
    intro answer x hx
    injection hx with ha hx
    exact ⟨by rw [← hx], Prod.ext ha (by rw [← hx]; rfl)⟩
  rcases run_bind h with ⟨a, ⟨s₁, m₁⟩, hrun, hnext⟩ | ⟨e, hrun, rfl⟩
  · obtain ⟨rfl, hf⟩ := hact hrun
    exact .inl ⟨a, m₁, hf, hnext⟩
  · obtain ⟨rfl, hf⟩ := hact hrun
    exact .inr ⟨e, hf, rfl, rfl⟩

/-- The socket that a method makes of another. -/
theorem run_on {method : Method K Unit} (h : (method.on s).run m = (.ok s', m')) :
    method.run (s, m) = (.ok (), (s', m')) := by
  have hrun : (method.on s).run m
      = ((method.run (s, m)).1.map fun _ => (method.run (s, m)).2.1, (method.run (s, m)).2.2) := rfl
  rw [hrun] at h
  cases hmethod : method.run (s, m) with
  | mk answer x =>
      rw [hmethod] at h
      injection h with hanswer hm
      cases answer with
      | error e => exact absurd hanswer (by simp [Except.map])
      | ok done =>
          injection hanswer with hs
          rw [← hs, ← hm]

/-- A method whose socket is in another state does nothing, whatever it was given. -/
theorem run_enter_refused {next : Socket → Descriptor → Method K Unit}
    (h : allowed s.state = false) : (enter stage allowed next).run (s, m)
      = (.error (.socket (.invalidState stage s.state)), (s, m)) := by
  have hact : (act (s.expect stage allowed)).run (s, m)
      = (.error (.socket (.invalidState stage s.state)), (s, m)) := by
    show (let (answer, m) := (s.expect stage allowed : Act K Descriptor).run m; (answer, s, m)) = _
    rw [Socket.run_expect_refused h]
  show (act (s.expect stage allowed) >>= next s).run (s, m) = _
  exact run_bind_of_error hact

theorem run_enter {next : Socket → Descriptor → Method K Unit}
    (h : (enter stage allowed next).run (s, m) = (r, (s', m'))) :
    (∃ e, r = .error e ∧ s' = s ∧ m' = m)
      ∨ ∃ d, s.descriptor = some d ∧ allowed s.state = true
        ∧ (next s d).run (s, m) = (r, (s', m')) := by
  rcases run_act_bind h with ⟨d, m₁, hexpect, hnext⟩ | ⟨e, hexpect, rfl, rfl⟩
  · obtain ⟨rfl, ⟨d', hd', hd, hallowed⟩ | hno⟩ := Socket.run_expect hexpect
    · obtain rfl : d = d' := by injection hd'
      exact .inr ⟨d, hd, hallowed, hnext⟩
    · exact absurd hno (by simp)
  · exact .inl ⟨e, rfl, rfl, (Socket.run_expect hexpect).1⟩

/-- A method that makes one call and then changes its socket: it leaves the socket as it was where
the call fails. -/
theorem run_enter_call {f : Descriptor → K → Except Errno Unit × K}
    {toError : Errno → SocketError} {change : Socket → Socket}
    (h : (enter stage allowed fun _ d => do
      act (Act.call (f d) toError)
      assign change).run (s, m) = (r, (s', m'))) :
    (∃ failure, r = .error failure) ∧ s' = s
        ∧ (m' = m ∨ ∃ d errno, s.descriptor = some d ∧ m.Calls (f d) (.error errno) m')
      ∨ r = .ok () ∧ allowed s.state = true
        ∧ ∃ d, s.descriptor = some d ∧ m.Calls (f d) (.ok ()) m' ∧ s' = change s := by
  rcases run_enter h with ⟨failure, rfl, rfl, rfl⟩ | ⟨d, hd, hallowed, h₁⟩
  · exact .inl ⟨⟨_, rfl⟩, rfl, .inl rfl⟩
  · rcases run_act_bind h₁ with ⟨⟨⟩, m₁, hcall, h₂⟩ | ⟨failure, hcall, rfl, rfl⟩
    · rcases Act.calls_of_run hcall with ⟨errno, -, hno⟩ | ⟨⟨⟩, hcalls, -⟩
      · exact absurd hno (by simp)
      · injection h₂ with hr h₂
        injection h₂ with hs hm
        subst hr hs hm
        exact .inr ⟨rfl, hallowed, d, hd, hcalls, rfl⟩
    · rcases Act.calls_of_run hcall with ⟨errno, hcalls, -⟩ | ⟨⟨⟩, -, hno⟩
      · exact .inl ⟨⟨_, rfl⟩, rfl, .inr ⟨d, errno, hd, hcalls⟩⟩
      · exact absurd hno (by simp)

/-- The file that a socket has once it is bound to an endpoint. -/
def fileAt (old : Option (List UInt8)) : Endpoint → Option (List UInt8)
  | .unix address => address.filePath?
  | _ => old

variable [Kernel K] {e : Endpoint}

/-- **Binding.** A bind that fails leaves the socket as it was; one that succeeds has asked the
kernel to bind the descriptor to what was found. -/
theorem run_bindTo (h : (bindTo e).run (s, m) = (r, (s', m'))) :
    ∃ m₁, m.LooksUp e m₁ ∧
      ((∃ failure, r = .error failure) ∧ s' = s
          ∧ (m' = m₁ ∨ ∃ d found errno, s.descriptor = some d
            ∧ m₁.Calls (Kernel.bind d found) (.error errno) m')
        ∨ r = .ok () ∧ s.state = .created ∧ ∃ d found own, s.descriptor = some d
            ∧ e.Finds s.family found ∧ m₁.Calls (Kernel.bind d found) (.ok ()) m'
            ∧ s' = { s with file := fileAt s.file found, ownEndpoint := own, state := .bound }) := by
  rcases run_enter h with ⟨failure, rfl, rfl, rfl⟩ | ⟨d, hd, hallowed, h₁⟩
  · exact ⟨_, .known, .inl ⟨⟨_, rfl⟩, rfl, .inl rfl⟩⟩
  · rcases run_act_bind h₁ with ⟨found, m₁, htarget, h₂⟩ | ⟨failure, htarget, rfl, rfl⟩
    · obtain ⟨hlooks, hfound⟩ := Socket.run_target htarget
      refine ⟨m₁, hlooks, ?_⟩
      rcases run_act_bind h₂ with ⟨⟨⟩, m₂, hcall, h₃⟩ | ⟨failure, hcall, rfl, rfl⟩
      · rcases Act.calls_of_run hcall with ⟨errno, -, hno⟩ | ⟨⟨⟩, hcalls, -⟩
        · exact absurd hno (by simp)
        · -- what is left are changes of the socket
          refine .inr ?_
          cases found <;>
            (injection h₃ with hr h₃
             injection h₃ with hs hm
             subst hr hs hm
             exact ⟨rfl, by simpa using hallowed, d, _, _, hd, (hfound _ rfl).1, hcalls, rfl⟩)
      · rcases Act.calls_of_run hcall with ⟨errno, hcalls, -⟩ | ⟨⟨⟩, -, hno⟩
        · exact .inl ⟨⟨_, rfl⟩, rfl, .inr ⟨d, found, errno, hd, hcalls⟩⟩
        · exact absurd hno (by simp)
    · exact ⟨m', (Socket.run_target htarget).1, .inl ⟨⟨_, rfl⟩, rfl, .inl rfl⟩⟩

theorem run_listenFor {backlog : Int} (h : (listenFor backlog).run (s, m) = (r, (s', m'))) :
    (∃ failure, r = .error failure) ∧ s' = s
        ∧ (m' = m ∨ ∃ d errno, s.descriptor = some d
          ∧ m.Calls (Kernel.listen d backlog) (.error errno) m')
      ∨ r = .ok () ∧ s.state = .bound ∧ ∃ d, s.descriptor = some d
          ∧ m.Calls (Kernel.listen d backlog) (.ok ()) m'
          ∧ s' = { s with state := .listening } := by
  have hends := run_enter_call h
  rwa [beq_iff_eq] at hends

theorem run_shut {how : Direction} (h : (shut how).run (s, m) = (r, (s', m'))) :
    (∃ failure, r = .error failure) ∧ s' = s
        ∧ (m' = m ∨ ∃ d errno, s.descriptor = some d
          ∧ m.Calls (Kernel.shutdown d how) (.error errno) m')
      ∨ r = .ok () ∧ s.state = .connected ∧ ∃ d, s.descriptor = some d
          ∧ m.Calls (Kernel.shutdown d how) (.ok ()) m'
          ∧ s' = { s with state := .shutDown how } := by
  have hends := run_enter_call h
  rwa [beq_iff_eq] at hends

/-- What connecting makes of a kernel: one call, and two more where that was interrupted. -/
inductive Joins (d : Descriptor) (e : Endpoint) (k : K) : K → Prop where
  | atOnce : Joins d e k (Kernel.connect d e k).2
  | waited : Joins d e k (Kernel.awaitWritable d (Kernel.connect d e k).2).2
  | asked : Joins d e k (Kernel.takeError d (Kernel.awaitWritable d (Kernel.connect d e k).2).2).2

/-- A connect that the kernel has granted, at once or after it was interrupted. -/
inductive Joined (d : Descriptor) (e : Endpoint) (k k' : K) : Prop where
  | atOnce : Kernel.connect d e k = (.ok (), k') → Joined d e k k'
  | awaited {k₁ k₂ : K} : Kernel.connect d e k = (.error .interrupted, k₁) →
      Kernel.awaitWritable d k₁ = (.ok (), k₂) → Kernel.takeError d k₂ = (.ok none, k') →
      Joined d e k k'

theorem Joined.joins {d : Descriptor} {k k' : K} (h : Joined d e k k') : Joins d e k k' := by
  cases h with
  | atOnce hconnect =>
      have hjoins : Joins d e k (Kernel.connect d e k).2 := .atOnce
      rwa [hconnect] at hjoins
  | awaited hconnect hawait hask =>
      have hjoins : Joins d e k
          (Kernel.takeError d (Kernel.awaitWritable d (Kernel.connect d e k).2).2).2 := .asked
      rwa [hconnect, hawait, hask] at hjoins

/-- An interrupted connect is waited for, and the error that it has ended with is asked for. -/
theorem run_await {d : Descriptor} {failed : Cause → SocketError}
    (h : (do
      Act.call (Kernel.awaitWritable d) fun errno => failed (.system errno)
      match ← Act.call (Kernel.takeError d) fun errno => failed (.option "SO_ERROR" errno) with
      | none => return ()
      | some errno => throw (.socket (failed (.system errno))) : Act K Unit).run m = (r, m')) :
    m' = { m with kernel := m'.kernel }
      ∧ (m'.kernel = (Kernel.awaitWritable d m.kernel).2
        ∨ m'.kernel = (Kernel.takeError d (Kernel.awaitWritable d m.kernel).2).2)
      ∧ (r = .ok () → ∃ k, Kernel.awaitWritable d m.kernel = (.ok (), k)
        ∧ Kernel.takeError d k = (.ok none, m'.kernel)) := by
  rcases run_bind h with ⟨⟨⟩, m₁, hwait, h₁⟩ | ⟨failure, hwait, rfl⟩
  · rcases Act.calls_of_run hwait with ⟨errno, -, hno⟩ | ⟨⟨⟩, hwaits, -⟩
    · exact absurd hno (by simp)
    · have hkernel : (Kernel.awaitWritable d m.kernel).2 = m₁.kernel := by rw [hwaits.answered]
      rcases run_bind h₁ with ⟨pending, m₂, hask, h₂⟩ | ⟨failure, hask, rfl⟩
      · rcases Act.calls_of_run hask with ⟨errno, -, hno⟩ | ⟨answer, hasks, hanswer⟩
        · exact absurd hno (by simp)
        · obtain rfl := Except.ok.inj hanswer
          have hm : m' = m₂ := by
            cases pending <;> (injection h₂ with _ hm; exact hm.symm)
          subst hm
          refine ⟨by rw [hasks.frame, hwaits.frame], .inr ?_, fun hok => ?_⟩
          · rw [hkernel, hasks.answered]
          · cases pending with
            | none => exact ⟨m₁.kernel, hwaits.answered, hasks.answered⟩
            | some errno =>
                injection h₂ with hr _
                exact absurd (hr.trans hok) (by simp)
      · obtain ⟨hkernel', hframe⟩ := Act.frame_of_run hask
        refine ⟨by rw [hframe, hwaits.frame], .inr ?_, fun hok => absurd hok (by simp)⟩
        rw [hkernel, hkernel']
  · obtain ⟨hkernel, hframe⟩ := Act.frame_of_run hwait
    exact ⟨hframe, .inl hkernel, fun hok => absurd hok (by simp)⟩

theorem run_join {d : Descriptor} (h : (join d e).run m = (r, m')) :
    Joins d e m.kernel m'.kernel ∧ m' = { m with kernel := m'.kernel }
      ∧ (r = .ok () → Joined d e m.kernel m'.kernel) := by
  rcases run_bind h with ⟨answer, m₁, hconnect, h₁⟩ | ⟨failure, hconnect, rfl⟩
  · obtain ⟨answer', hsame, hconnects⟩ := Act.calls_of_attempt hconnect
    obtain rfl := Except.ok.inj hsame
    have hkernel : (Kernel.connect d e m.kernel).2 = m₁.kernel := by rw [hconnects.answered]
    cases answer with
    | ok done =>
        injection h₁ with _ hm
        subst hm
        exact ⟨hkernel ▸ .atOnce, hconnects.frame, fun _ => .atOnce hconnects.answered⟩
    | error errno =>
        dsimp only at h₁
        split at h₁
        · rename_i hinterrupted
          subst hinterrupted
          obtain ⟨hframe, hcalls, hok⟩ := run_await h₁
          refine ⟨?_, by rw [hframe, hconnects.frame], fun hr => ?_⟩
          · rw [← hkernel] at hcalls
            rcases hcalls with hcalls | hcalls
            · exact hcalls ▸ .waited
            · exact hcalls ▸ .asked
          · obtain ⟨k, hwaits, hasks⟩ := hok hr
            exact .awaited hconnects.answered hwaits hasks
        · injection h₁ with hr hm
          subst hm
          exact ⟨hkernel ▸ .atOnce, hconnects.frame, fun hok => absurd (hr.trans hok) (by simp)⟩
  · obtain ⟨answer', hno, -⟩ := Act.calls_of_attempt hconnect
    exact absurd hno (by simp)

/-- **Connecting.** A connect that fails leaves the socket as it was; one that succeeds has been
granted by the kernel. -/
theorem run_connectTo (h : (connectTo e).run (s, m) = (r, (s', m'))) :
    ∃ m₁, m.LooksUp e m₁ ∧
      ((∃ failure, r = .error failure) ∧ s' = s
          ∧ (m' = m₁ ∨ ∃ d found, s.descriptor = some d ∧ Joins d found m₁.kernel m'.kernel
            ∧ m' = { m₁ with kernel := m'.kernel })
        ∨ r = .ok () ∧ (s.state = .created ∨ s.state = .bound) ∧ ∃ d found peer own,
            s.descriptor = some d ∧ e.Finds s.family found ∧ Joined d found m₁.kernel m'.kernel
            ∧ m' = { m₁ with kernel := m'.kernel }
            ∧ s' = { s with peerEndpoint := peer, ownEndpoint := own, state := .connected }) := by
  rcases run_enter h with ⟨failure, rfl, rfl, rfl⟩ | ⟨d, hd, hallowed, h₁⟩
  · exact ⟨_, .known, .inl ⟨⟨_, rfl⟩, rfl, .inl rfl⟩⟩
  · rcases run_act_bind h₁ with ⟨found, m₁, htarget, h₂⟩ | ⟨failure, htarget, rfl, rfl⟩
    · obtain ⟨hlooks, hfound⟩ := Socket.run_target htarget
      refine ⟨m₁, hlooks, ?_⟩
      rcases run_act_bind h₂ with ⟨⟨⟩, m₂, hjoin, h₃⟩ | ⟨failure, hjoin, rfl, rfl⟩
      · obtain ⟨-, hframe, hjoined⟩ := run_join hjoin
        injection h₃ with hr h₃
        injection h₃ with hs hm
        subst hr hs hm
        exact .inr ⟨rfl, by simpa using hallowed, d, found, _, _, hd, (hfound _ rfl).1,
          hjoined rfl, hframe, rfl⟩
      · obtain ⟨hjoins, hframe, -⟩ := run_join hjoin
        exact .inl ⟨⟨_, rfl⟩, rfl, .inr ⟨d, found, hd, hjoins, hframe⟩⟩
    · exact ⟨m', (Socket.run_target htarget).1, .inl ⟨⟨_, rfl⟩, rfl, .inl rfl⟩⟩

end Method

end PacedNet
