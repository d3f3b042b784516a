import PacedNet.Proofs.Host.Accounts
import PacedNet.Session.Table

/-!
# Bringing up configured sockets

A configured socket is created, has its options set, and is bound, made to listen or connected. The
socket that is half way there bears what has been opened and made (`Machine.Bears`), from its
creation on and through each further step, also one that fails. What fails gives the socket up, so
that of a socket that does not come up nothing is left but a file that the kernel will not remove;
one that comes up has been granted each of its calls (`bringUp_restores`).
-/

namespace PacedNet

variable {K P α β : Type} {a : Kernel.Accounts K P} {own : Option Endpoint} {d : Descriptor}
  {m m₁ m₂ m' : Machine K} {s s' : Socket} {k k' : K}

theorem Machine.Calls.held {f : K → Except Errno α × K} {answer : Except Errno α}
    (h : m.Calls f answer m') : m'.held = m.held := by rw [h.frame]

/-- The socket that a method makes of another, or why it makes none. -/
theorem Method.on_cases {method : Method K Unit} {r : Except Failure Socket}
    (h : (method.on s).run m = (r, m')) :
    ∃ answer s', method.run (s, m) = (answer, (s', m')) ∧ r = answer.map fun _ => s' := by
  have hrun : (method.on s).run m
      = ((method.run (s, m)).1.map fun _ => (method.run (s, m)).2.1, (method.run (s, m)).2.2) := rfl
  rw [hrun] at h
  injection h with hr hm
  exact ⟨_, (method.run (s, m)).2.1, by rw [← hm]; rfl, hr.symm⟩

variable [Kernel K]

/-! ## What the kernel grants -/

/-- The kernel sets options, one after the other. -/
inductive Setting.Granted (d : Descriptor) : List Setting → K → K → Prop where
  | nil (k : K) : Granted d [] k k
  | cons {setting : Setting} {rest : List Setting} {k k₁ k' : K} :
      Kernel.set d setting k = (.ok (), k₁) → Granted d rest k₁ k' →
      Granted d (setting :: rest) k k'

namespace SocketConfig

variable (c : SocketConfig QuotaId) (d : Descriptor)

/-- The kernel has created the socket and set what it is to keep. -/
def Opened (k k' : K) : Prop :=
  ∃ k₁, Kernel.create c.family c.kind k = (.ok d, k₁) ∧ Setting.Granted d c.options.settings k₁ k'

/-- The kernel has bound the socket to what was found for an endpoint. -/
def Bound (e : Endpoint) (k k' : K) : Prop :=
  ∃ found k₁, e.LooksUp k k₁ ∧ e.Finds c.family found ∧ Kernel.bind d found k₁ = (.ok (), k')

/-- The kernel has connected the socket to what was found for an endpoint. -/
def Joined (e : Endpoint) (k k' : K) : Prop :=
  ∃ found k₁, e.LooksUp k k₁ ∧ e.Finds c.family found ∧ Method.Joined d found k₁ k'

/-- All that the kernel is asked for a socket that comes up, and that it has granted it. -/
inductive Granted (k : K) : Session.Opening → K → Prop where
  | opened {k' : K} : c.Opened d k k' → Granted k .opened k'
  | bound {e : Endpoint} {k₁ k' : K} : c.kind = .datagram → c.bind = some e →
      c.Opened d k k₁ → c.Bound d e k₁ k' → Granted k .listening k'
  | listening {e : Endpoint} {k₁ k₂ k' : K} : c.kind = .stream → c.bind = some e →
      c.Opened d k k₁ → c.Bound d e k₁ k₂ →
      Kernel.listen d c.options.backlog k₂ = (.ok (), k') → Granted k .listening k'
  | connected {e : Endpoint} {k₁ k' : K} : c.bind = none → c.connect = some e →
      c.Opened d k k₁ → c.Joined d e k₁ k' → Granted k .connected k'
  | boundConnected {own e : Endpoint} {k₁ k₂ k' : K} : c.bind = some own → c.connect = some e →
      c.Opened d k k₁ → c.Bound d own k₁ k₂ → c.Joined d e k₂ k' → Granted k .connected k'

end SocketConfig

/-! ## A socket on its way up -/

/-- An operation is over: nothing is left of it if it failed but a file that cannot be removed, and
of its answer something is known. -/
def Machine.Ends (a : Kernel.Accounts K P) (own : Option Endpoint) (m m' : Machine K)
    (good : α → Prop) : Except Failure α → Prop
  | .error _ => m.Restored a own m'
  | .ok b => good b

/-- A step of a socket on its way up is over: the socket still bears what it bore if it failed. -/
def Machine.Steps (a : Kernel.Accounts K P) (own : Option Endpoint) (m : Machine K)
    (d : Descriptor) (s : Socket) (m' : Machine K) (good : α → Prop) : Except Failure α → Prop
  | .error _ => m.Bears a own d s m'
  | .ok b => good b

/-- A socket that has come so far bears what there is, and has neither listened nor been
connected. -/
structure Machine.Rises (a : Kernel.Accounts K P) (own : Option Endpoint) (m : Machine K)
    (d : Descriptor) (s : Socket) (m' : Machine K) : Prop extends m.Bears a own d s m' where
  idle : a.idle d m'.kernel

/-- What a socket is configured to be is what it is. -/
structure SocketConfig.Carried (c : SocketConfig QuotaId) (s : Socket) : Prop where
  family : s.family = c.family
  kind : s.kind = c.kind
  acknowledge : s.acknowledge = c.options.acknowledge
  quota : s.quota = c.options.quota
  readChunk : s.readChunk = max c.options.readChunk 1

variable {r : Except Failure Socket} {c : SocketConfig QuotaId}

/-- One operation after the other: where the first fails, that was the end. -/
theorem Machine.Ends.bind {act : Act K α} {next : α → Act K β} {good : Machine K → α → Prop}
    {fine : β → Prop} {r : Except Failure β} (h : (act >>= next).run m₁ = (r, m'))
    (hact : ∀ {r₁ m₂}, act.run m₁ = (r₁, m₂) → m.Ends a own m₂ (good m₂) r₁)
    (hnext : ∀ {b m₂}, good m₂ b → (next b).run m₂ = (r, m') → m.Ends a own m' fine r) :
    m.Ends a own m' fine r := by
  rcases run_bind h with ⟨b, m₂, hfirst, hrest⟩ | ⟨failure, hfirst, rfl⟩
  · exact hnext (hact hfirst) hrest
  · exact hact hfirst

/-- A step that fails is the end of the socket. -/
theorem Machine.Ends.of_orDrop {act : Act K α} {r : Except Failure α} (ha : a.Kept)
    (hm : m.Backed a) {good : α → Prop} (h : (s.orDrop act).run m₁ = (r, m'))
    (hfail : ∀ failure m₂, act.run m₁ = (.error failure, m₂) → m.Bears a own d s m₂)
    (hgood : ∀ b, act.run m₁ = (.ok b, m') → good b) : Ends a own m m' good r := by
  rcases run_tryCatch h with ⟨b, hact, rfl⟩ | ⟨failure, m₂, hact, hdrop⟩
  · exact hgood b hact
  · injection hdrop with hr hm'
    subst hr hm'
    exact (hfail failure m₂ hact).restored ha hm

/-- **Creating.** A socket that is created is all that there is. -/
theorem Socket.create_ends (ha : a.Kept) (hm : m.Backed a) {family : Family} {kind : Kind}
    (h : (create family kind).run m = (r, m')) :
    m.Ends a own m' (fun s => ∃ d, m.Rises a own d s m' ∧ s.file = none ∧ s.state = .created
      ∧ s.family = family ∧ s.kind = kind
      ∧ Kernel.create family kind m.kernel = (.ok d, m'.kernel)) r := by
  unfold create at h
  rcases run_bind h with ⟨d, m₁, hcall, hadopt⟩ | ⟨failure, hcall, rfl⟩
  · rcases Act.calls_of_run hcall with ⟨errno, -, hno⟩ | ⟨d', hcalls, hd⟩
    · cases hno
    · obtain rfl := Except.ok.inj hd
      injection hadopt with hr hm'
      subst hr hm'
      rcases ha.create hm.valid hcalls.answered with ⟨⟨errno, hno⟩, -⟩ | ⟨d', hd, hopens⟩
      · cases hno
      · obtain rfl := Except.ok.inj hd
        have hheld : m₁.held = m.held := by rw [hcalls.frame]
        refine ⟨d, ⟨⟨hopens.valid, hopens.fresh, hopens.descriptors, congrArg (d :: ·) hheld, rfl,
          ?_, rfl, .inl ⟨rfl, hopens.files⟩⟩, hopens.idle⟩, rfl, rfl, rfl, rfl, hcalls.answered⟩
        exact State.noConfusion
  · rcases Act.calls_of_run hcall with ⟨errno, hcalls, -⟩ | ⟨d', -, hno⟩
    · rcases ha.create hm.valid hcalls.answered with ⟨-, hsame⟩ | ⟨d', hno, -⟩
      · exact ⟨hsame.valid, hsame.descriptors, by rw [hcalls.frame], .inl hsame.files⟩
      · cases hno
    · cases hno

/-- An option that is set, or not. -/
theorem Machine.Rises.configure (ha : a.Kept) (hs : m.Rises a own d s m₁) {setting : Setting}
    {r : Except Failure Unit} (h : (s.configure setting).run m₁ = (r, m₂)) :
    m.Rises a own d s m₂
      ∧ (r = .ok () → Kernel.set d setting m₁.kernel = (.ok (), m₂.kernel)) := by
  unfold Socket.configure Socket.openDescriptor at h
  rw [hs.descriptor] at h
  rcases Act.calls_of_run (f := Kernel.set d setting) h with
    ⟨errno, hcalls, rfl⟩ | ⟨⟨⟩, hcalls, rfl⟩
  all_goals
    obtain ⟨hsame, hidle⟩ := ha.set hs.valid hs.idle hcalls.answered
    have hrises : m.Rises a own d s m₂ := ⟨hs.toBears.same hsame hcalls.held, hidle⟩
  · exact ⟨hrises, fun hok => absurd hok (by simp)⟩
  · exact ⟨hrises, fun _ => hcalls.answered⟩

theorem Machine.Rises.settings (ha : a.Kept) {settings : List Setting} {r : Except Failure Unit}
    (hs : m.Rises a own d s m₁) (h : (settings.forM (m := Act K) s.configure).run m₁ = (r, m₂)) :
    m.Rises a own d s m₂
      ∧ (r = .ok () → Setting.Granted d settings m₁.kernel m₂.kernel) := by
  induction settings generalizing m₁ with
  | nil =>
      injection h with _ hm
      subst hm
      exact ⟨hs, fun _ => .nil _⟩
  | cons setting settings ih =>
      rcases run_bind h with ⟨⟨⟩, m₃, hfirst, hrest⟩ | ⟨failure, hfirst, rfl⟩
      · obtain ⟨hrises, hset⟩ := hs.configure ha hfirst
        obtain ⟨hrises', hall⟩ := ih hrises hrest
        exact ⟨hrises', fun hok => .cons (hset rfl) (hall hok)⟩
      · exact ⟨(hs.configure ha hfirst).1, fun hok => absurd hok (by simp)⟩

/-- **Setting the options.** -/
theorem Machine.Rises.apply (ha : a.Kept) (hs : m.Rises a own d s m₁)
    (hfamily : s.family = c.family) (hkind : s.kind = c.kind)
    (h : (c.options.apply s).run m₁ = (r, m₂)) :
    Steps a own m d s m₂ (fun s' => m.Rises a own d s' m₂ ∧ s'.file = s.file
      ∧ s'.state = s.state ∧ c.Carried s'
      ∧ Setting.Granted d c.options.settings m₁.kernel m₂.kernel) r := by
  unfold SocketOptions.apply at h
  rcases run_bind h with ⟨⟨⟩, m₃, hset, hrest⟩ | ⟨failure, hset, rfl⟩
  · obtain ⟨hrises, hgranted⟩ := hs.settings ha hset
    injection hrest with hr hm
    subst hr hm
    exact ⟨⟨hrises.toBears.congr rfl rfl rfl hrises.notClosed, hrises.idle⟩, rfl, rfl,
      ⟨hfamily, hkind, rfl, rfl, rfl⟩, hgranted rfl⟩
  · exact (hs.settings ha hset).1.toBears

/-- **Opening.** -/
theorem SocketConfig.openSocket_ends (ha : a.Kept) (hm : m.Backed a)
    (h : c.openSocket.run m = (r, m')) :
    m.Ends a own m' (fun s => ∃ d, m.Rises a own d s m' ∧ s.file = none ∧ s.state = .created
      ∧ c.Carried s ∧ c.Opened d m.kernel m'.kernel) r := by
  unfold openSocket at h
  refine .bind h (Socket.create_ends ha hm) ?_
  rintro s m₁ ⟨d, hrises, hfile, hstate, hfamily, hkind, hcreated⟩ hrest
  refine .of_orDrop (d := d) ha hm hrest
    (fun failure m₂ happly => hrises.apply ha hfamily hkind happly) fun s' happly => ?_
  obtain ⟨hrises', hfile', hstate', hcarried, hset⟩ := hrises.apply ha hfamily hkind happly
  exact ⟨d, hrises', hfile'.trans hfile, hstate'.trans hstate, hcarried, _, hcreated, hset⟩

/-- What the socket is to be bound or connected to is looked up. -/
theorem Machine.Rises.looksUp (ha : a.Kept) (hs : m.Rises a own d s m₁) {e : Endpoint}
    (h : m₁.LooksUp e m₂) : m.Rises a own d s m₂ := by
  obtain ⟨hsame, hidle⟩ := ha.looksUp hs.valid h.kernel
  exact ⟨hs.toBears.same hsame (by rw [h.frame]), hidle d hs.idle⟩

/-- **Binding.** -/
theorem Machine.Rises.bind (ha : a.Kept) (hs : m.Rises a own d s m₁) (hfile : s.file = none)
    (hcarried : c.Carried s) {e : Endpoint} (hown : own = some e) (hplain : e.IsPlain)
    (h : (s.bind e).run m₁ = (r, m₂)) :
    Steps a own m d s m₂ (fun s' => m.Rises a own d s' m₂ ∧ s'.state = .bound ∧ c.Carried s'
      ∧ c.Bound d e m₁.kernel m₂.kernel) r := by
  obtain ⟨answer, s', hrun, rfl⟩ := Method.on_cases h
  obtain ⟨m₃, hlooks, hends⟩ := Method.run_bindTo hrun
  have hlooked := hs.looksUp ha hlooks
  rcases hends with ⟨⟨failure, rfl⟩, -, rfl | ⟨d', found, errno, hd, hcalls⟩⟩
    | ⟨rfl, hstate, d', found, name, hd, hfound, hcalls, rfl⟩
  · exact hlooked.toBears
  · exact hlooked.toBears.same (ha.refuse hlooked.valid hcalls.answered) hcalls.held
  · obtain rfl : d = d' := Option.some.inj (hs.descriptor.symm.trans hd)
    have hcarried' : c.Carried { s with
        file := Method.fileAt s.file found, ownEndpoint := name, state := .bound } :=
      ⟨hcarried.family, hcarried.kind, hcarried.acknowledge, hcarried.quota, hcarried.readChunk⟩
    have hbound : c.Bound d e m₁.kernel m₂.kernel :=
      ⟨found, m₃.kernel, hlooks.kernel, hcarried.family ▸ hfound, hcalls.answered⟩
    -- there was no file before, so that the socket's is the one that was made
    rw [hfile] at hcarried' ⊢
    obtain ⟨hidle, hbind⟩ := ha.bind hlooked.valid (hplain.found hfound) hcalls.answered
    rcases hbind with ⟨hnone, hsame⟩ | ⟨path, place, hpath, hmakes⟩
    · have hbears := hlooked.toBears.same hsame hcalls.held
      have hnofile := hnone.trans hfile.symm
      exact ⟨⟨hbears.congr rfl hnofile rfl State.noConfusion, hidle hlooked.idle⟩, rfl, hcarried',
        hbound⟩
    · have hpath' : own = some (.unix (.path path)) :=
        hown.trans (congrArg some (Method.eq_of_fileAt hfound hpath))
      refine ⟨⟨hlooked.toBears.makes hfile hpath' hmakes hcalls.held rfl hpath rfl ?_,
        hidle hlooked.idle⟩, rfl, hcarried', hbound⟩
      exact State.noConfusion

/-- **Listening.** -/
theorem Machine.Rises.listen (ha : a.Kept) (hs : m.Rises a own d s m₁) (hcarried : c.Carried s)
    {backlog : Int} (h : (s.listen backlog).run m₁ = (r, m₂)) :
    Steps a own m d s m₂ (fun s' => m.Bears a own d s' m₂ ∧ s'.state = .listening
      ∧ c.Carried s' ∧ Kernel.listen d backlog m₁.kernel = (.ok (), m₂.kernel)) r := by
  obtain ⟨answer, s', hrun, rfl⟩ := Method.on_cases h
  have hcalled {d' : Descriptor} {answer : Except Errno Unit} (hd : s.descriptor = some d')
      (hcalls : m₁.Calls (Kernel.listen d' backlog) answer m₂) :
      d = d' ∧ m.Bears a own d s m₂ := by
    obtain rfl : d = d' := Option.some.inj (hs.descriptor.symm.trans hd)
    obtain ⟨hstays, hdescriptors⟩ := ha.listen hs.valid hcalls.answered
    exact ⟨rfl, hs.toBears.same ⟨hstays, hdescriptors hs.idle⟩ hcalls.held⟩
  rcases Method.run_listenFor hrun with ⟨⟨failure, rfl⟩, -, rfl | ⟨d', errno, hd, hcalls⟩⟩
    | ⟨rfl, hstate, d', hd, hcalls, rfl⟩
  · exact hs.toBears
  · exact (hcalled hd hcalls).2
  · obtain ⟨rfl, hbears⟩ := hcalled hd hcalls
    exact ⟨hbears.congr rfl rfl rfl State.noConfusion, rfl,
      ⟨hcarried.1, hcarried.2, hcarried.3, hcarried.4, hcarried.5⟩, hcalls.answered⟩

/-- **Connecting.** -/
theorem Machine.Rises.connect (ha : a.Kept) (hs : m.Rises a own d s m₁) (hcarried : c.Carried s)
    {e : Endpoint} (h : (s.connect e).run m₁ = (r, m₂)) :
    Steps a own m d s m₂ (fun s' => m.Bears a own d s' m₂ ∧ s'.state = .connected
      ∧ c.Carried s' ∧ c.Joined d e m₁.kernel m₂.kernel) r := by
  obtain ⟨answer, s', hrun, rfl⟩ := Method.on_cases h
  obtain ⟨m₃, hlooks, hends⟩ := Method.run_connectTo hrun
  have hlooked := hs.looksUp ha hlooks
  have hjoin {d' : Descriptor} {found : Endpoint} (hd : s.descriptor = some d')
      (hjoins : Method.Joins d' found m₃.kernel m₂.kernel)
      (hframe : m₂ = { m₃ with kernel := m₂.kernel }) : d = d' ∧ m.Bears a own d s m₂ := by
    obtain rfl : d = d' := Option.some.inj (hs.descriptor.symm.trans hd)
    obtain ⟨hstays, hdescriptors⟩ := ha.joins hlooked.valid hjoins
    exact ⟨rfl, hlooked.toBears.same ⟨hstays, hdescriptors hlooked.idle⟩ (by rw [hframe])⟩
  rcases hends with ⟨⟨failure, rfl⟩, -, rfl | ⟨d', found, hd, hjoins, hframe⟩⟩
    | ⟨rfl, hstate, d', found, peer, name, hd, hfound, hjoined, hframe, rfl⟩
  · exact hlooked.toBears
  · exact (hjoin hd hjoins hframe).2
  · obtain ⟨rfl, hbears⟩ := hjoin hd hjoined.joins hframe
    exact ⟨hbears.congr rfl rfl rfl State.noConfusion, rfl,
      ⟨hcarried.1, hcarried.2, hcarried.3, hcarried.4, hcarried.5⟩, found, m₃.kernel,
      hlooks.kernel, hcarried.family ▸ hfound, hjoined⟩

/-! ## All the way -/

namespace SocketConfig

/-- Where an endpoint is missing nothing has been done. -/
theorem required_ends (hm : m.Backed a) {key : String} {e : Option Endpoint}
    {r : Except Failure Endpoint} (h : (c.required key e).run m = (r, m')) :
    m.Ends a own m' (fun found => m' = m ∧ e = some found) r := by
  cases e with
  | none =>
      injection h with hr hm'
      subst hr hm'
      exact ⟨hm.valid, rfl, rfl, .inl rfl⟩
  | some e =>
      injection h with hr hm'
      subst hr hm'
      exact ⟨rfl, rfl⟩

/-- A bind that fails costs the socket. -/
theorem bind_ends (ha : a.Kept) (hm : m.Backed a) (hs : m.Rises a c.bind d s m₁)
    (hfile : s.file = none) (hcarried : c.Carried s) {e : Endpoint} (hbind : c.bind = some e)
    (hplain : e.IsPlain) (h : (s.orDrop (s.bind e)).run m₁ = (r, m')) :
    m.Ends a c.bind m' (fun s' => m.Rises a c.bind d s' m' ∧ s'.state = .bound ∧ c.Carried s'
      ∧ c.Bound d e m₁.kernel m'.kernel) r :=
  .of_orDrop ha hm h (fun _ _ hrun => hs.bind ha hfile hcarried hbind hplain hrun)
    fun _ hrun => hs.bind ha hfile hcarried hbind hplain hrun

/-- What is known of a socket that has come up. -/
structure Up (a : Kernel.Accounts K P) (c : SocketConfig QuotaId) (how : Session.Opening)
    (m : Machine K) (s : Socket) (d : Descriptor) (m' : Machine K) : Prop where
  bears : m.Bears a c.bind d s m'
  carried : c.Carried s
  granted : c.Granted d m.kernel how m'.kernel

theorem listen_ends (ha : a.Kept) (hm : m.Backed a) (hplain : ∀ e, c.bind = some e → e.IsPlain)
    (h : c.listen.run m = (r, m')) :
    m.Ends a c.bind m' (fun s => ∃ d, c.Up a .listening m s d m'
      ∧ s.state = match c.kind with
        | .stream => .listening
        | .datagram => .bound) r := by
  unfold listen at h
  refine .bind h (required_ends hm) ?_
  rintro e _ ⟨rfl, hbind⟩ h₁
  refine .bind h₁ (openSocket_ends ha hm) ?_
  rintro s m₁ ⟨d, hrises, hfile, -, hcarried, hopened⟩ h₂
  refine .bind h₂ (bind_ends ha hm hrises hfile hcarried hbind (hplain e hbind)) ?_
  rintro s' m₂ ⟨hrises', hstate', hcarried', hbound⟩ h₃
  cases hkind : c.kind with
  | stream =>
      rw [hkind] at h₃
      refine .of_orDrop ha hm h₃ (fun failure m₃ hrun => hrises'.listen ha hcarried' hrun)
        fun s'' hrun => ?_
      obtain ⟨hbears, hstate, hcarried'', hlistens⟩ := hrises'.listen ha hcarried' hrun
      exact ⟨d, ⟨hbears, hcarried'', .listening hkind hbind hopened hbound hlistens⟩, hstate⟩
  | datagram =>
      rw [hkind] at h₃
      injection h₃ with hr hm'
      subst hr hm'
      exact ⟨d, ⟨hrises'.toBears, hcarried', .bound hkind hbind hopened hbound⟩, hstate'⟩

theorem connectSocket_ends (ha : a.Kept) (hm : m.Backed a)
    (hplain : ∀ e, c.bind = some e → e.IsPlain) (h : c.connectSocket.run m = (r, m')) :
    m.Ends a c.bind m' (fun s => ∃ d, c.Up a .connected m s d m' ∧ s.state = .connected) r := by
  -- a socket that has come so far is connected, or is the end of it
  have hconnects {d : Descriptor} {s : Socket} {m₁ : Machine K} {e : Endpoint}
      (hrises : m.Rises a c.bind d s m₁) (hcarried : c.Carried s)
      (hgranted : c.Joined d e m₁.kernel m'.kernel → c.Granted d m.kernel .connected m'.kernel)
      (hrun : (s.orDrop (s.connect e)).run m₁ = (r, m')) :
      m.Ends a c.bind m' (fun s => ∃ d, c.Up a .connected m s d m' ∧ s.state = .connected) r := by
    refine .of_orDrop ha hm hrun (fun failure m₃ hrun => hrises.connect ha hcarried hrun)
      fun s' hrun => ?_
    obtain ⟨hbears, hstate, hcarried', hjoined⟩ := hrises.connect ha hcarried hrun
    exact ⟨d, ⟨hbears, hcarried', hgranted hjoined⟩, hstate⟩
  unfold connectSocket at h
  refine .bind h (required_ends hm) ?_
  rintro e _ ⟨rfl, hconnect⟩ h₁
  refine .bind h₁ (openSocket_ends ha hm) ?_
  rintro s m₁ ⟨d, hrises, hfile, -, hcarried, hopened⟩ h₂
  cases hbind : c.bind with
  | none =>
      rw [hbind] at h₂
      exact hbind ▸ hconnects hrises hcarried (.connected hbind hconnect hopened) h₂
  | some e' =>
      rw [hbind] at h₂
      rw [← hbind]
      refine .bind h₂ (bind_ends ha hm hrises hfile hcarried hbind (hplain e' hbind)) ?_
      rintro s' m₂ ⟨hrises', -, hcarried', hbound⟩ h₃
      exact hconnects hrises' hcarried' (.boundConnected hbind hconnect hopened hbound) h₃

/-- Bringing a socket up. -/
def bringUp (c : SocketConfig QuotaId) : Session.Opening → Act K Socket
  | .opened => c.openSocket
  | .listening => c.listen
  | .connected => c.connectSocket

/-- What a socket is brought up to. -/
def upState (kind : Kind) : Session.Opening → State
  | .opened => .created
  | .listening =>
    match kind with
    | .stream => .listening
    | .datagram => .bound
  | .connected => .connected

theorem bringUp_ends (ha : a.Kept) (hm : m.Backed a) (hplain : ∀ e, c.bind = some e → e.IsPlain)
    (how : Session.Opening) (h : (c.bringUp how).run m = (r, m')) :
    m.Ends a c.bind m' (fun s => ∃ d, c.Up a how m s d m' ∧ s.state = upState c.kind how) r := by
  cases how with
  | opened =>
      have hopens : m.Ends a c.bind m' _ r := openSocket_ends ha hm h
      cases r with
      | error failure => exact hopens
      | ok s =>
          obtain ⟨d, hrises, -, hstate, hcarried, hopened⟩ := hopens
          exact ⟨d, ⟨hrises.toBears, hcarried, .opened hopened⟩, hstate⟩
  | listening => exact listen_ends ha hm hplain h
  | connected => exact connectSocket_ends ha hm hplain h

/-- **A socket comes up, or nothing is left of it that could be removed.** Where any step fails, of
that socket no descriptor is open: what is open and what is held is what was before. What is there
is what was there, but for a file at the endpoint to bind to where the kernel has refused to remove
it. Where all succeed there is one socket more, whose descriptor was not open before, in the state
that it is to be brought to and to which the kernel has brought it, with the settings that it was
configured to have. -/
theorem bringUp_restores (ha : a.Kept) (hm : m.Backed a)
    (hplain : ∀ e, c.bind = some e → e.IsPlain) (how : Session.Opening)
    (h : (c.bringUp how).run m = (r, m')) :
    (∀ failure, r = .error failure → m.Restored a c.bind m')
      ∧ ∀ s, r = .ok s → ∃ d, m.Bears a c.bind d s m' ∧ s.state = upState c.kind how
        ∧ c.Granted d m.kernel how m'.kernel
        ∧ s.acknowledge = c.options.acknowledge ∧ s.quota = c.options.quota
        ∧ s.readChunk = max c.options.readChunk 1 ∧ s.family = c.family ∧ s.kind = c.kind := by
  have hends := bringUp_ends ha hm hplain how h
  constructor
  · rintro failure rfl
    exact hends
  · rintro s rfl
    obtain ⟨d, ⟨hbears, hcarried, hgranted⟩, hstate⟩ := hends
    exact ⟨d, hbears, hstate, hgranted, hcarried.acknowledge, hcarried.quota, hcarried.readChunk,
      hcarried.family, hcarried.kind⟩

/-- A socket that is bound to one path and connects to another. -/
def boundAndConnecting : SocketConfig QuotaId where
  scope := ""
  family := .unix
  kind := .stream
  bind := some (.unix (.path [0x61]))
  connect := some (.unix (.path [0x62]))
  options := { acknowledge := true, readChunk := 0 }

/-- Nothing listens where the socket is to connect to, so its own file is gone again. It could have
listened itself. -/
theorem bringUp_restores_boundAndConnecting :
    (∃ failure m',
      (boundAndConnecting.bringUp .connected).run (Machine.start Host.empty) = (.error failure, m')
        ∧ (Machine.start Host.empty).Restored Host.accounts boundAndConnecting.bind m')
    ∧ ∃ s m' d,
      (boundAndConnecting.bringUp .listening).run (Machine.start Host.empty) = (.ok s, m')
        ∧ (Machine.start Host.empty).Bears Host.accounts boundAndConnecting.bind d s m'
        ∧ s.file = some [0x61] ∧ s.state = .listening ∧ s.acknowledge = true
        ∧ s.readChunk = 1 := by
  have hbacked : (Machine.start Host.empty).Backed Host.accounts :=
    ⟨Host.orderly_empty, fun d hd => absurd hd List.not_mem_nil⟩
  have hplain (e : Endpoint) (he : boundAndConnecting.bind = some e) : e.IsPlain := by
    rintro path rfl
    cases he
    decide
  constructor
  · have hfails : ((boundAndConnecting.bringUp .connected).run
        (Machine.start Host.empty)).1.toOption.isNone := by decide +kernel
    cases hrun : (boundAndConnecting.bringUp .connected).run (Machine.start Host.empty) with
    | mk r m' =>
        rw [hrun] at hfails
        cases r with
        | error failure =>
            exact ⟨failure, m', rfl,
              (bringUp_restores Host.accounts_kept hbacked hplain _ hrun).1 _ rfl⟩
        | ok s => cases hfails
  · have hlistens : ((boundAndConnecting.bringUp .listening).run
        (Machine.start Host.empty)).1.toOption.map Socket.file = some (some [0x61]) := by
      decide +kernel
    cases hrun : (boundAndConnecting.bringUp .listening).run (Machine.start Host.empty) with
    | mk r m' =>
        rw [hrun] at hlistens
        cases r with
        | error failure => cases hlistens
        | ok s =>
            obtain ⟨d, hbears, hstate, -, hacknowledge, -, hchunk, -⟩ :=
              (bringUp_restores Host.accounts_kept hbacked hplain _ hrun).2 s rfl
            exact ⟨s, m', d, rfl, hbears, Option.some.inj hlistens, hstate, hacknowledge, hchunk⟩

/-- A host that files are only added to. -/
def appending : Host := { Host.empty with appendOnly := true }

/-- There the file of the same socket is left. -/
theorem bringUp_leaves_file :
    ∃ failure m', (boundAndConnecting.bringUp .connected).run (Machine.start appending)
        = (.error failure, m')
      ∧ m'.held = [] ∧ Host.home ++ [[0x61]] ∉ Host.accounts.files appending
      ∧ Host.home ++ [[0x61]] ∈ Host.accounts.files m'.kernel := by
  have hends : ((boundAndConnecting.bringUp .connected).run (Machine.start appending)).map
      (·.toOption.isNone) (fun m' => (m'.held, m'.kernel.nodes.map Prod.fst))
        = (true, [], [Host.home ++ [[0x61]]]) := by decide +kernel
  have hfile : Host.isDirectory (Host.home ++ [[0x61]]) = false := by decide +kernel
  cases hrun : (boundAndConnecting.bringUp .connected).run (Machine.start appending) with
  | mk r m' =>
      rw [hrun] at hends
      obtain ⟨hfails, hends⟩ := Prod.mk.inj hends
      obtain ⟨hheld, hnodes⟩ := Prod.mk.inj hends
      cases r with
      | ok s => cases hfails
      | error failure =>
          obtain ⟨⟨place, node⟩, _, hnode, hplace, -⟩ := List.map_eq_cons_iff.mp hnodes
          obtain rfl : place = Host.home ++ [[0x61]] := hplace
          refine ⟨failure, m', rfl, hheld, fun ⟨_, node, hno⟩ => absurd hno List.not_mem_nil, ?_⟩
          exact ⟨hfile, node, by rw [hnode]; exact List.mem_cons_self⟩

end SocketConfig

end PacedNet
