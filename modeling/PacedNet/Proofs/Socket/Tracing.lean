import PacedNet.Proofs.Socket.Sending

/-!
# A kernel whose sends are written down

To speak of what a kernel was given, its calls that send are written down: a traced
kernel answers like the kernel it is made of, and keeps these calls in their order.
-/

namespace PacedNet

variable {K : Type}

/-- A kernel and the calls that send, in their order. -/
structure Traced (K : Type) where
  kernel : K
  sends : List SendCall

namespace Traced

/-- A call that sends nothing. -/
def lift {α : Type} (f : K → α × K) (t : Traced K) : α × Traced K :=
  ((f t.kernel).1, { t with kernel := (f t.kernel).2 })

/-- A call that sends, written down with its answer. -/
def send [Kernel K] (d : Descriptor) (octets : List UInt8) (flags : Nat) (pass : Option OpenFile)
    (t : Traced K) : Except Errno Nat × Traced K :=
  let (answer, kernel) := Kernel.send d octets flags pass t.kernel
  (answer, ⟨kernel, t.sends ++ [⟨d, octets, flags, pass, answer⟩]⟩)

instance [Kernel K] : Kernel (Traced K) where
  lookUp name port := lift (Kernel.lookUp name port)
  create family kind := lift (Kernel.create family kind)
  bind d e := lift (Kernel.bind d e)
  listen d backlog := lift (Kernel.listen d backlog)
  accept d := lift (Kernel.accept d)
  connect d e := lift (Kernel.connect d e)
  awaitWritable d := lift (Kernel.awaitWritable d)
  ownName d t := Kernel.ownName d t.kernel
  peerName d t := Kernel.peerName d t.kernel
  set d setting := lift (Kernel.set d setting)
  receiveBuffer d t := Kernel.receiveBuffer d t.kernel
  sendBuffer d t := Kernel.sendBuffer d t.kernel
  takeError d := lift (Kernel.takeError d)
  send := send
  receive d room := lift (Kernel.receive d room)
  nextLength d := lift (Kernel.nextLength d)
  ready d := lift (Kernel.ready d)
  waiting d t := Kernel.waiting d t.kernel
  shutdown d how := lift (Kernel.shutdown d how)
  close d := lift (Kernel.close d)
  unlink path := lift (Kernel.unlink path)
  duplicate file := lift (Kernel.duplicate file)
  closeFile file t := { t with kernel := Kernel.closeFile file t.kernel }

variable [Kernel K]

theorem takesSome (hK : Kernel.TakesSome K) : Kernel.TakesSome (Traced K) :=
  fun d octets flags pass t n hne hn => hK d octets flags pass t.kernel n hne hn

theorem sends_send (d : Descriptor) (octets : List UInt8) (flags : Nat) (pass : Option OpenFile)
    (t : Traced K) : (Kernel.send d octets flags pass t).2.sends
      = t.sends ++ [⟨d, octets, flags, pass, (Kernel.send d octets flags pass t).1⟩] := rfl

theorem sends_receive (d : Descriptor) (room : Nat) (t : Traced K) :
    (Kernel.receive d room t).2.sends = t.sends := rfl

/-- The calls that lead from one state to another are those written down between them. -/
theorem sends_of_made {t t' : Traced K} {calls : List SendCall} (h : Made t calls t') :
    t'.sends = t.sends ++ calls := by
  induction h with
  | nil t => rw [List.append_nil]
  | cons hanswer hmade ih => rw [ih, sends_send, hanswer, List.append_assoc, List.singleton_append]

end Traced

end PacedNet
