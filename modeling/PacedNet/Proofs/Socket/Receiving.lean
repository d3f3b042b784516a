import PacedNet.Proofs.Socket.Fifo
import PacedNet.Socket.Receive

/-!
# What a receive returns

Over a queue, a receive that succeeds returns all that lies there and leaves nothing,
however large its chunks are and whatever part of a chunk the kernel delivers
(`run_receiveData`, `run_receiveToEnd`). Each chunk that is not empty shortens the queue,
so that as many chunks as octets are waiting suffice.
-/

namespace PacedNet

variable {K : Type} {a b : Descriptor} {up : K → Prop} {queue : K → List UInt8}
  {m m' : Machine K}

/-- After what was read before, all of the queue is read. -/
structure Machine.Empties (up : K → Prop) (queue : K → List UInt8) (read : List UInt8)
    (m : Machine K) (data : List UInt8) (m' : Machine K) : Prop where
  moves : m.Moves m'
  up : up m'.kernel
  data : data = read ++ queue m.kernel
  rest : queue m'.kernel = []

/-- A chunk from the front of the queue, and then all of the rest. -/
theorem Machine.Empties.cons {m₁ : Machine K} {read chunk data : List UInt8} (hmoves : m.Moves m₁)
    (hqueue : queue m.kernel = chunk ++ queue m₁.kernel)
    (h : m₁.Empties up queue (read ++ chunk) data m') : m.Empties up queue read data m' := by
  refine ⟨hmoves.trans h.moves, h.up, ?_, h.rest⟩
  rw [h.data, hqueue, List.append_assoc]

/-- A chunk that is empty was the last. -/
theorem empties_of_last {read : List UInt8} {got : Incoming} (hmoves : m.Moves m')
    (hup : up m'.kernel) (hqueue : queue m.kernel = got.octets ++ queue m'.kernel)
    (hempty : got.octets = [] → queue m.kernel = []) (hnil : got.octets = []) :
    m.Empties up queue read read m' := by
  have hall := hempty hnil
  rw [hall] at hqueue
  obtain ⟨-, hrest⟩ := List.append_eq_nil_iff.mp hqueue.symm
  exact ⟨hmoves, hup, by rw [hall, List.append_nil], hrest⟩

/-- A chunk that is not empty shortens the queue. -/
theorem length_rest_lt {got : Incoming} {bound : Nat}
    (hqueue : queue m.kernel = got.octets ++ queue m'.kernel) (hne : got.octets ≠ [])
    (hbound : (queue m.kernel).length < bound + 1) : (queue m'.kernel).length < bound := by
  have hpos := List.length_pos_iff.mpr hne
  rw [hqueue, List.length_append] at hbound
  omega

namespace Socket

variable [Kernel K] {s : Socket} {link : Link}

/-- A run of looking whether something is there. -/
theorem run_isReady (hK : Kernel.Fifo a b up queue) (hlink : link.descriptor = b)
    (hup : up m.kernel) {r : Except Failure Bool} (h : (isReady link).run m = (r, m')) :
    m.Moves m' ∧ up m'.kernel ∧ queue m'.kernel = queue m.kernel
      ∧ ∃ ready, r = .ok ready ∧ (ready = false → queue m.kernel = []) := by
  subst hlink
  unfold isReady at h
  rw [run_get_bind] at h
  cases hready : Kernel.ready link.descriptor m.kernel with
  | mk ready kernel =>
      rw [hready] at h
      injection h with hr hm
      subst hr hm
      obtain ⟨hup', hqueue, hnone⟩ := hK.ready hup hready
      exact ⟨m.moves_kernel _, hup', hqueue, ready, rfl, hnone⟩

/-- A run of reading a chunk: it comes from the front, and is empty only where nothing is. -/
theorem run_readChunkOf (hK : Kernel.Fifo a b up queue) (hlink : link.descriptor = b)
    (hflows : m.Flows link.quota) (hchunk : 0 < s.readChunk) (hup : up m.kernel) {got : Incoming}
    (h : (s.readChunkOf link).run m = (.ok got, m')) :
    m.Moves m' ∧ up m'.kernel ∧ queue m.kernel = got.octets ++ queue m'.kernel
      ∧ (got.octets = [] → queue m.kernel = []) := by
  subst hlink
  unfold readChunkOf at h
  obtain ⟨room, m₁, hpace, hreceive⟩ := run_bind_ok h
  obtain ⟨hmoves, hkernel, hgrant⟩ := Act.run_pace hpace
  have hroom : 0 < room := (hgrant room rfl).2 hflows hchunk
  unfold receiveCall at hreceive
  obtain ⟨hmoves', hkernel', hanswer⟩ := Act.run_call hreceive
  have hgot := Transfer.answer_of_ok hanswer
  rw [hkernel] at hgot hkernel'
  obtain ⟨hup', hqueue, hempty⟩ := hK.receive hup (Prod.ext hgot hkernel'.symm)
  exact ⟨hmoves.trans hmoves', hup', hqueue, hempty hroom⟩

/-- Draining gets the rest of the queue. -/
theorem run_drain (hK : Kernel.Fifo a b up queue) (hlink : link.descriptor = b)
    (hflows : m.Flows link.quota) (hchunk : 0 < s.readChunk) (hup : up m.kernel) {bound : Nat}
    (hbound : (queue m.kernel).length < bound) {read data : List UInt8}
    (h : (s.drain link bound read).run m = (.ok data, m')) :
    m.Empties up queue read.reverse data m' := by
  induction bound generalizing m read with
  | zero => exact absurd hbound (Nat.not_lt_zero _)
  | succ bound ih =>
      unfold drain at h
      obtain ⟨ready, m₁, hready, h₁⟩ := run_bind_ok h
      obtain ⟨hmoves, hup₁, hqueue₁, _, hok, hnone⟩ := run_isReady hK hlink hup hready
      injection hok with hok
      subst hok
      cases ready with
      | false =>
          injection h₁ with hdata hm
          injection hdata with hdata
          subst hdata hm
          exact ⟨hmoves, hup₁, by rw [hnone rfl, List.append_nil], hqueue₁.trans (hnone rfl)⟩
      | true =>
          obtain ⟨chunk, m₂, hread, h₂⟩ := run_bind_ok h₁
          obtain ⟨hmoves₂, hup₂, hqueue₂, hempty⟩ :=
            run_readChunkOf hK hlink (hmoves.flows hflows) hchunk hup₁ hread
          rw [hqueue₁] at hqueue₂ hempty
          have hmoves := hmoves.trans hmoves₂
          by_cases hnil : chunk.octets = []
          · rw [if_pos (by simp [hnil])] at h₂
            injection h₂ with hdata hm
            injection hdata with hdata
            subst hdata hm
            exact empties_of_last hmoves hup₂ hqueue₂ hempty hnil
          · rw [if_neg (by simpa using hnil)] at h₂
            have hrest := ih (hmoves.flows hflows) hup₂ (length_rest_lt hqueue₂ hnil hbound) h₂
            rw [List.reverse_append, List.reverse_reverse] at hrest
            exact hrest.cons hmoves hqueue₂

/-- Reading up to an empty chunk gets the rest of the queue. -/
theorem run_readUntilEnd (hK : Kernel.Fifo a b up queue) (hlink : link.descriptor = b)
    (hflows : m.Flows link.quota) (hchunk : 0 < s.readChunk) (hup : up m.kernel) {bound : Nat}
    (hbound : (queue m.kernel).length < bound) {read data : List UInt8}
    (h : (s.readUntilEnd link bound read).run m = (.ok data, m')) :
    m.Empties up queue read.reverse data m' := by
  induction bound generalizing m read with
  | zero => exact absurd hbound (Nat.not_lt_zero _)
  | succ bound ih =>
      unfold readUntilEnd at h
      obtain ⟨chunk, m₁, hread, h₁⟩ := run_bind_ok h
      obtain ⟨hmoves, hup₁, hqueue, hempty⟩ := run_readChunkOf hK hlink hflows hchunk hup hread
      by_cases hnil : chunk.octets = []
      · rw [if_pos (by simp [hnil])] at h₁
        injection h₁ with hdata hm
        injection hdata with hdata
        subst hdata hm
        exact empties_of_last hmoves hup₁ hqueue hempty hnil
      · rw [if_neg (by simpa using hnil)] at h₁
        have hrest := ih (hmoves.flows hflows) hup₁ (length_rest_lt hqueue hnil hbound) h₁
        rw [List.reverse_append, List.reverse_reverse] at hrest
        exact hrest.cons hmoves hqueue

/-- The link of a socket that may receive. -/
theorem reader_eq_ok (hd : s.descriptor = some b) (h : s.reader = .ok link) :
    link.descriptor = b ∧ link.quota = s.quota := by
  obtain rfl := link_eq_ok hd h
  exact ⟨rfl, rfl⟩

/-- **A receive of data returns all that lies in the queue.** -/
theorem run_receiveData (hK : Kernel.Fifo a b up queue) (hd : s.descriptor = some b)
    (hkind : s.kind = .stream) (hack : s.acknowledge = false) (hflows : m.Flows s.quota)
    (hchunk : 0 < s.readChunk) (hup : up m.kernel) {data : List UInt8}
    (h : s.receiveData.run m = (.ok data, m')) : m.Empties up queue [] data m' := by
  unfold receiveData at h
  obtain ⟨link, m₀, hlinked, h₁⟩ := run_bind_ok h
  obtain ⟨hreader, rfl⟩ := Act.run_ofExcept_ok hlinked
  obtain ⟨hlink, hquota⟩ := reader_eq_ok hd hreader
  rw [← hquota] at hflows
  rw [hkind] at h₁
  -- the first chunk, which is not empty, and then what is behind it
  obtain ⟨first, m₁, hfirst, h₂⟩ := run_bind_ok h₁
  obtain ⟨hmoves, hup₁, hqueue, -⟩ := run_readChunkOf hK hlink hflows hchunk hup hfirst
  split at h₂
  · injection h₂ with hdata _
    exact absurd hdata (by simp)
  · obtain ⟨all, m₂, hmore, hreply⟩ := run_bind_ok h₂
    unfold drainAll at hmore
    have hrest := run_drain hK hlink (hmoves.flows hflows) hchunk hup₁
      (Nat.lt_succ_of_le (hK.waiting hup₁)) (hlink ▸ hmore)
    rw [List.reverse_reverse] at hrest
    have hlast : data = all ∧ m' = m₂ := by
      unfold reply at hreply
      rw [hack] at hreply
      injection hreply with hdata hm
      injection hdata with hdata
      exact ⟨hdata.symm, hm.symm⟩
    obtain ⟨rfl, rfl⟩ := hlast
    exact hrest.cons hmoves hqueue

/-- **A receive up to the end returns all that lies in the queue.** -/
theorem run_receiveToEnd (hK : Kernel.Fifo a b up queue) (hd : s.descriptor = some b)
    (hkind : s.kind = .stream) (hflows : m.Flows s.quota) (hchunk : 0 < s.readChunk)
    (hup : up m.kernel) {data : List UInt8} (h : s.receiveToEnd.run m = (.ok data, m')) :
    m.Empties up queue [] data m' := by
  unfold receiveToEnd at h
  obtain ⟨link, m₀, hlinked, h₁⟩ := run_bind_ok h
  obtain ⟨hreader, rfl⟩ := Act.run_ofExcept_ok hlinked
  obtain ⟨hlink, hquota⟩ := reader_eq_ok hd hreader
  rw [← hquota] at hflows
  rw [hkind] at h₁
  exact run_readUntilEnd hK hlink hflows hchunk hup (Nat.lt_succ_of_le (hK.waiting hup))
    (hlink ▸ h₁)

end Socket

end PacedNet
