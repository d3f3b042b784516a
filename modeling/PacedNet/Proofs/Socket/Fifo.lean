import PacedNet.Proofs.Socket.Methods
import PacedNet.Proofs.Socket.Tracing

/-!
# A kernel with a queue

Between the two ends of a stream lies a queue: what is taken of a send goes to its end,
what is received comes from its front (`Kernel.Fifo`). How much of a send is taken, and
how much of the queue a receive gets, is left to the kernel.
-/

namespace PacedNet

variable {K : Type}

/-- While a connection is up, `queue` is what lies on the way from `a` to `b`. -/
structure Kernel.Fifo [Kernel K] (a b : Descriptor) (up : K → Prop) (queue : K → List UInt8) :
    Prop where
  /-- What is taken of a send goes to the end. -/
  send : ∀ {octets : List UInt8} {flags : Nat} {answer : Except Errno Nat} {k k' : K}, up k →
    Kernel.send a octets flags none k = (answer, k') →
    up k' ∧ queue k' = queue k ++ SendCall.taken ⟨a, octets, flags, none, answer⟩
  /-- What is received comes from the front; it is nothing, with room for something, only where
  nothing is. -/
  receive : ∀ {room : Nat} {got : Incoming} {k k' : K}, up k →
    Kernel.receive b room k = (.ok got, k') →
    up k' ∧ queue k = got.octets ++ queue k' ∧ (0 < room → got.octets = [] → queue k = [])
  /-- Whether something lies there can be seen. -/
  ready : ∀ {answer : Bool} {k k' : K}, up k → Kernel.ready b k = (answer, k') →
    up k' ∧ queue k' = queue k ∧ (answer = false → queue k = [])
  /-- All of the queue waits to be received. -/
  waiting : ∀ {k : K}, up k → (queue k).length ≤ Kernel.waiting b k
  /-- Shutting the sending end leaves what is on the way. -/
  shutdown : ∀ {how : Direction} {answer : Except Errno Unit} {k k' : K}, up k →
    Kernel.shutdown a how k = (answer, k') → up k' ∧ queue k' = queue k

namespace Kernel.Fifo

variable [Kernel K] {a b : Descriptor} {up : K → Prop} {queue : K → List UInt8}

/-- A queue is where it is, whether sends are written down or not. -/
theorem traced (h : Kernel.Fifo a b up queue) :
    Kernel.Fifo (K := Traced K) a b (fun t => up t.kernel) (fun t => queue t.kernel) where
  send hup hsend := by
    injection hsend with hanswer ht
    subst hanswer ht
    exact h.send hup rfl
  receive hup hreceive := by
    injection hreceive with hgot ht
    subst ht
    exact h.receive hup (Prod.ext hgot rfl)
  ready hup hready := by
    injection hready with hanswer ht
    subst ht
    exact h.ready hup (Prod.ext hanswer rfl)
  waiting hup := h.waiting hup
  shutdown hup hshutdown := by
    injection hshutdown with hanswer ht
    subst ht
    exact h.shutdown hup (Prod.ext hanswer rfl)

/-- Calls of the sending end put what was taken of them at the end of the queue. -/
theorem made (h : Kernel.Fifo a b up queue) {k k' : K} {calls : List SendCall}
    (hmade : Made k calls k') (hcalls : ∀ c ∈ calls, c.descriptor = a ∧ c.pass = none)
    (hup : up k) : up k' ∧ queue k' = queue k ++ takenOf calls := by
  induction hmade with
  | nil k => exact ⟨hup, (List.append_nil _).symm⟩
  | @cons k k' c calls hanswer hmade ih =>
      obtain ⟨hd, hpass⟩ := hcalls c List.mem_cons_self
      rw [hd, hpass] at hanswer hmade ih
      obtain ⟨hup', hqueue⟩ := h.send hup (Prod.ext hanswer rfl)
      obtain ⟨hup'', hqueue'⟩ := ih (fun c' hc' => hcalls c' (List.mem_cons_of_mem _ hc')) hup'
      refine ⟨hup'', ?_⟩
      rw [hqueue', hqueue, List.append_assoc]
      rfl

end Kernel.Fifo

/-- Shutting the sending end leaves what is on the way. -/
theorem Socket.run_shutdown [Kernel K] {a b : Descriptor} {up : K → Prop} {queue : K → List UInt8}
    {m m' : Machine K} (hK : Kernel.Fifo a b up queue) {s s' : Socket} {how : Direction}
    (hd : s.descriptor = some a) (hup : up m.kernel)
    (h : (s.shutdown how).run m = (.ok s', m')) :
    m.Moves m' ∧ up m'.kernel ∧ queue m'.kernel = queue m.kernel
      ∧ s' = { s with state := .shutDown how } := by
  rcases Method.run_shut (Method.run_on h) with ⟨⟨failure, hno⟩, -⟩ | ⟨-, -, d, hsome, hcalls, hs⟩
  · exact absurd hno (by simp)
  · obtain rfl : a = d := Option.some.inj (hd.symm.trans hsome)
    obtain ⟨hup', hqueue⟩ := hK.shutdown hup hcalls.answered
    exact ⟨hcalls.frame ▸ m.moves_kernel m'.kernel, hup', hqueue, hs⟩

end PacedNet
