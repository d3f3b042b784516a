import PacedNet.Proofs.Socket.Frame
import PacedNet.Proofs.Socket.Tracing

/-!
# Asynchronous sends

A send that is started holds its socket's descriptor until its job has run or is
dropped. All a job that passes nothing does to what sockets share, besides its transfer, is to
resolve a slot and to let go of the descriptor (`keeps_run`, `keeps_drop`), which stays
open as long as somebody else holds it.
-/

namespace PacedNet

variable {K : Type}

namespace Machine

/-- Only slots, callbacks made and the descriptors held are different. -/
def Keeps (m m' : Machine K) (held : List Descriptor) : Prop :=
  m' = { m with slots := m'.slots, calls := m'.calls, held }

theorem Keeps.kernel {m m' : Machine K} {held : List Descriptor} (h : m.Keeps m' held) :
    m'.kernel = m.kernel := by rw [h]

theorem Keeps.held {m m' : Machine K} {held : List Descriptor} (h : m.Keeps m' held) :
    m'.held = held := by rw [h]

theorem Keeps.flows {m m' : Machine K} {held : List Descriptor} {quota : Option QuotaId}
    (h : m.Keeps m' held) (hf : m.Flows quota) : m'.Flows quota := by
  rw [h]
  exact hf

theorem keeps_resolve (m : Machine K) (id : SlotId) (r : SendResult) :
    m.Keeps (m.resolve id r) m.held := by
  unfold Keeps resolve
  split
  · rfl
  · split <;> rfl

/-- A descriptor that somebody else holds stays open. -/
theorem release_eq [Kernel K] {m : Machine K} {d : Descriptor} (h : 1 < m.held.count d) :
    m.release d = (.ok (), { m with held := m.held.erase d }) := by
  unfold release
  have hmore : (m.held.erase d).contains d = true := by
    rw [List.contains_iff_mem, ← List.count_pos_iff, List.count_erase_self]
    omega
  exact if_pos hmore

/-- Letting go of a descriptor that somebody else holds. -/
theorem Keeps.release [Kernel K] {m m' : Machine K} {d : Descriptor} (hkeeps : m.Keeps m' m.held)
    (h : 1 < m.held.count d) : m.Keeps (m'.release d).2 (m.held.erase d) := by
  rw [release_eq (by rwa [hkeeps.held]), hkeeps.held]
  unfold Keeps
  rw [hkeeps]

end Machine

variable [Kernel K] {m m' : Machine K}

namespace Job

variable {job : Job}

/-- A job lets go of a descriptor that somebody else holds, and of the copy that it passed. -/
theorem letGo_eq (h : 1 < m.held.count job.link.descriptor) :
    job.letGo m = { m with
      kernel := job.parcel.closePass m.kernel, held := m.held.erase job.link.descriptor } :=
  congrArg Prod.snd
    (Machine.release_eq (m := { m with kernel := job.parcel.closePass m.kernel }) h)

/-- A job that passes nothing lets go of its socket's descriptor only. -/
theorem letGo_of_pass (hpass : job.parcel.pass = none) (m : Machine K) :
    job.letGo m = (m.release job.link.descriptor).2 := by
  unfold letGo Parcel.closePass
  rw [hpass]

/-- A job that is dropped only lets go of its descriptor. -/
theorem keeps_drop (hpass : job.parcel.pass = none) (h : 1 < m.held.count job.link.descriptor) :
    m.Keeps (job.drop m) (m.held.erase job.link.descriptor) := by
  unfold drop
  rw [letGo_of_pass hpass]
  exact (m.keeps_resolve job.slot cancelledSend).release h

/-- A job that runs lets go of its descriptor after its transfer. -/
theorem keeps_run {answer : Except Failure SendReport} (hpass : job.parcel.pass = none)
    (hrun : (Transfer.run job.link job.parcel false).run m = (answer, m'))
    (h : 1 < m'.held.count job.link.descriptor) :
    m'.Keeps (job.run m).2 (m'.held.erase job.link.descriptor) := by
  unfold run
  rw [hrun]
  simp only [letGo_of_pass hpass]
  cases answer with
  | ok report => exact (m'.keeps_resolve _ _).release h
  | error failure =>
      cases failure with
      | socket e => exact (m'.keeps_resolve _ _).release h
      | config e => exact Machine.Keeps.release rfl h
      | fault f => exact Machine.Keeps.release rfl h

end Job

namespace Socket

/-- Starting a send that passes no descriptor: it fails at once, or leaves a job that sends the
payload on the socket's link and holds its descriptor. -/
theorem dispatch_cases (s : Socket) (p : Payload) (flags : Nat) (callback : Bool)
    {started : Dispatched} (h : s.dispatch p ⟨flags, none⟩ callback m = (started, m')) :
    (started.job = none ∧ started.socket = s ∧ m.Keeps m' m.held)
      ∨ ∃ link job, s.writer = .ok link ∧ started.job = some job ∧ job.link = link
          ∧ job.parcel = p.parcel ⟨flags, none⟩
          ∧ started.socket = { s with pending := started.socket.pending }
          ∧ m.Keeps m' (link.descriptor :: m.held) := by
  unfold dispatch at h
  dsimp only at h
  cases hwriter : s.writer with
  | error e =>
      rw [prepare_refused hwriter] at h
      injection h with hs hm
      subst hs hm
      refine Or.inl ⟨rfl, rfl, ?_⟩
      exact (m.addSlot callback).2.keeps_resolve _ _
  | ok link =>
      rw [prepare_plain hwriter rfl] at h
      injection h with hs hm
      subst hs hm
      exact Or.inr ⟨link, _, rfl, rfl, rfl, rfl, rfl, rfl⟩

end Socket

end PacedNet
