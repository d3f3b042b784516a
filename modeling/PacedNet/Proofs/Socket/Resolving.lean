import PacedNet.Socket.Machine
import Mathlib.Data.List.Basic
import Mathlib.Logic.Relation

/-!
# Resolving a slot

Several parties may come to resolve one slot: the worker at the end of its transfer, the socket
that is closed, whoever drops the job. Each goes through its steps while others are in the middle
of theirs, and holders of the handle look at the slot whenever they like. In every order one
result is stored and stays, the callback is called with that result and no other, and no holder
sees anything before the callback has returned (`resolves_once`).

The reason is that the life of a slot is a line (`Life`): only a slot without a result takes one,
and whoever stored it is the only one to move the slot on. A resolution that nobody interrupts is
what the machine does in one piece (`run_resolve`).
-/

namespace PacedNet

/-- Who comes to resolve a slot. -/
inductive Resolver where
  /-- The worker, with what its transfer ended with. -/
  | worker (result : SendResult)
  /-- The socket that is closed. -/
  | closing
  /-- Whoever drops the job before it ran. -/
  | dropping

/-- The result that a resolver brings. -/
def Resolver.result : Resolver → SendResult
  | worker r => r
  | closing => cancelledSend
  | dropping => cancelledSend

/-- How far a resolver has come that stored its result. -/
inductive Progress where
  /-- It has taken the callback, if there was one. -/
  | stored (callback : Bool)
  /-- The callback was called and has not returned. -/
  | calling
  /-- The callback has returned. -/
  | called
deriving DecidableEq

/-- What a wait without a deadline answers when it ends. -/
def Slot.awaited (s : Slot) : SendResult := s.peek.getD cancelledSend

/-- A slot, those in the middle of resolving it, and what became known of it. -/
structure Resolving where
  slot : Slot
  /-- Each with the result it stored. -/
  inside : List (SendResult × Progress)
  /-- The results stored, in order. -/
  stores : List SendResult
  /-- The results the callback was called with, in order. -/
  calls : List SendResult
  /-- The callback has returned. -/
  returned : Bool
  /-- Some handle has reported completion. -/
  reported : Bool
  /-- The results that handles answered. -/
  answers : List SendResult

namespace Resolving

variable {callback : Bool} {c c' : Resolving} {r : SendResult}

/-- The slot of a send that was just started. -/
def opening (callback : Bool) : Resolving := ⟨.new callback, [], [], [], false, false, []⟩

/-- A resolver stores its result, or finds that there is one and leaves. -/
def store (c : Resolving) (r : SendResult) : Resolving :=
  match c.slot.store r with
  | none => c
  | some stored =>
    { c with
      slot := stored
      inside := c.inside ++ [(r, .stored c.slot.callback)]
      stores := c.stores ++ [r] }

/-- What may happen. A look at the slot is one step, for the slot is locked meanwhile; one that
finds it pending changes nothing and is left out. -/
inductive Step : Resolving → Resolving → Prop where
  | store (c : Resolving) (resolver : Resolver) : Step c (c.store resolver.result)
  | call (c : Resolving) {i : Nat} {r : SendResult} : c.inside[i]? = some (r, .stored true) →
      Step c { c with inside := c.inside.set i (r, .calling), calls := c.calls ++ [r] }
  | return (c : Resolving) {i : Nat} {r : SendResult} : c.inside[i]? = some (r, .calling) →
      Step c { c with inside := c.inside.set i (r, .called), returned := true }
  /-- A callback may end its resolver instead of returning. -/
  | unwind (c : Resolving) {i : Nat} {r : SendResult} : c.inside[i]? = some (r, .calling) →
      Step c { c with inside := c.inside.eraseIdx i }
  | finish (c : Resolving) {i : Nat} {r : SendResult} {p : Progress} :
      c.inside[i]? = some (r, p) → p = .stored false ∨ p = .called →
      Step c { c with slot := c.slot.finish, inside := c.inside.eraseIdx i }
  /-- A handle says that the send is complete. -/
  | report (c : Resolving) : c.slot.done = true → Step c { c with reported := true }
  /-- A handle is asked for the result, or waited for with a deadline, and has it. -/
  | answer (c : Resolving) {r : SendResult} : c.slot.peek = some r →
      Step c { c with answers := c.answers ++ [r] }
  /-- A wait without a deadline ends. It sleeps until the slot is done. -/
  | wait (c : Resolving) : c.slot.done = true →
      Step c { c with answers := c.answers ++ [c.slot.awaited] }

/-- A state that a slot may come to. -/
abbrev Reaches (c c' : Resolving) : Prop := Relation.ReflTransGen Step c c'

/-- The life of a slot: slot, resolvers inside, results stored, results called with, and whether
the callback has returned. -/
inductive Life (callback : Bool) : Slot → List (SendResult × Progress) → List SendResult →
    List SendResult → Bool → Prop where
  | waiting : Life callback ⟨none, callback, false⟩ [] [] [] false
  | stored (r : SendResult) :
      Life callback ⟨some r, false, false⟩ [(r, .stored callback)] [r] [] false
  | calling (r : SendResult) : callback = true →
      Life callback ⟨some r, false, false⟩ [(r, .calling)] [r] [r] false
  /-- The callback did not return, and nobody is left to move the slot on. -/
  | unwound (r : SendResult) : callback = true →
      Life callback ⟨some r, false, false⟩ [] [r] [r] false
  | called (r : SendResult) : callback = true →
      Life callback ⟨some r, false, false⟩ [(r, .called)] [r] [r] true
  | done (r : SendResult) {calls : List SendResult} {returned : Bool} :
      calls = (if callback then [r] else []) → returned = callback →
      Life callback ⟨some r, false, true⟩ [] [r] calls returned

/-- A slot is at some point of its life, and what handles told is what it shows. -/
structure Sound (callback : Bool) (c : Resolving) : Prop where
  life : Life callback c.slot c.inside c.stores c.calls c.returned
  reported : c.reported = true → c.slot.done = true
  answers : ∀ r ∈ c.answers, c.slot.peek = some r

theorem sound_opening : Sound callback (opening callback) where
  life := .waiting
  reported h := absurd h (by simp [opening])
  answers r h := absurd h (by simp [opening])

/-- While a slot is not done, its handles have told nothing. -/
theorem Sound.of_pending (h : Sound callback c) (hpending : c.slot.done = false)
    {slot : Slot} {inside : List (SendResult × Progress)} {stores calls : List SendResult}
    {returned : Bool} (hlife : Life callback slot inside stores calls returned) :
    Sound callback ⟨slot, inside, stores, calls, returned, c.reported, c.answers⟩ := by
  have hnone : c.slot.peek = none := by
    unfold Slot.peek
    rw [hpending]
    rfl
  refine ⟨hlife, fun hr => ?_, fun r hr => ?_⟩
  · have hdone := h.reported hr
    rw [hpending] at hdone
    exact absurd hdone (by simp)
  · have hpeek := h.answers r hr
    rw [hnone] at hpeek
    exact absurd hpeek (by simp)

/-- A slot that is done shows the result that it holds. -/
theorem awaited_of_done {s : Slot} (hr : s.result = some r) (hdone : s.done = true) :
    s.peek = some r ∧ s.awaited = r := by
  have hpeek : s.peek = some r := by
    unfold Slot.peek
    rw [hdone]
    exact hr
  refine ⟨hpeek, ?_⟩
  unfold Slot.awaited
  rw [hpeek]
  rfl

/-- A slot that is done holds a result. -/
theorem Life.result_of_done {slot : Slot} {inside : List (SendResult × Progress)}
    {stores calls : List SendResult} {returned : Bool}
    (h : Life callback slot inside stores calls returned) (hdone : slot.done = true) :
    ∃ r, slot.result = some r := by
  cases h with
  | waiting => exact absurd hdone (by simp)
  | stored r => exact ⟨r, rfl⟩
  | calling r _ => exact ⟨r, rfl⟩
  | unwound r _ => exact ⟨r, rfl⟩
  | called r _ => exact ⟨r, rfl⟩
  | done r _ _ => exact ⟨r, rfl⟩

/-! ## One step -/

theorem sound_store (h : Sound callback c) (r : SendResult) : Sound callback (c.store r) := by
  have hlife := h.life
  cases c with
  | mk slot inside stores calls returned reported answers =>
      cases hlife with
      | waiting => exact h.of_pending rfl (.stored r)
      | stored _ => exact h
      | calling _ _ => exact h
      | unwound _ _ => exact h
      | called _ _ => exact h
      | done _ _ _ => exact h

/-- Who is inside is alone there, and its progress says what has happened. -/
theorem Life.of_inside {slot : Slot} {inside : List (SendResult × Progress)}
    {stores calls : List SendResult} {returned : Bool} {i : Nat} {p : Progress}
    (h : Life callback slot inside stores calls returned) (hi : inside[i]? = some (r, p)) :
    i = 0 ∧ slot = ⟨some r, false, false⟩ ∧ inside = [(r, p)] ∧ stores = [r]
      ∧ (p = .stored callback ∧ calls = [] ∧ returned = false
        ∨ p = .calling ∧ callback = true ∧ calls = [r] ∧ returned = false
        ∨ p = .called ∧ callback = true ∧ calls = [r] ∧ returned = true) := by
  have honly : ∀ x : SendResult × Progress, [x][i]? = some (r, p) → i = 0 ∧ x = (r, p) := by
    intro x hx
    cases i with
    | zero => exact ⟨rfl, by simpa using hx⟩
    | succ i => exact absurd hx (by simp)
  cases h with
  | waiting => exact absurd hi (by simp)
  | stored r' =>
      obtain ⟨rfl, hx⟩ := honly _ hi
      injection hx with hr hp
      subst hr hp
      exact ⟨rfl, rfl, rfl, rfl, .inl ⟨rfl, rfl, rfl⟩⟩
  | calling r' hcallback =>
      obtain ⟨rfl, hx⟩ := honly _ hi
      injection hx with hr hp
      subst hr hp
      exact ⟨rfl, rfl, rfl, rfl, .inr (.inl ⟨rfl, hcallback, rfl, rfl⟩)⟩
  | unwound r' _ => exact absurd hi (by simp)
  | called r' hcallback =>
      obtain ⟨rfl, hx⟩ := honly _ hi
      injection hx with hr hp
      subst hr hp
      exact ⟨rfl, rfl, rfl, rfl, .inr (.inr ⟨rfl, hcallback, rfl, rfl⟩)⟩
  | done r' _ _ => exact absurd hi (by simp)

theorem sound_call (h : Sound callback c) {i : Nat} (hi : c.inside[i]? = some (r, .stored true)) :
    Sound callback { c with inside := c.inside.set i (r, .calling), calls := c.calls ++ [r] } := by
  obtain ⟨rfl, hslot, hinside, hstores, hp⟩ := h.life.of_inside hi
  rcases hp with ⟨hp, hcalls, hreturned⟩ | ⟨hp, -⟩ | ⟨hp, -⟩
  · have hcallback : callback = true := by simpa using hp.symm
    refine h.of_pending (by rw [hslot]) ?_
    rw [hslot, hinside, hstores, hcalls, hreturned]
    exact .calling r hcallback
  · exact absurd hp (by simp)
  · exact absurd hp (by simp)

theorem sound_return (h : Sound callback c) {i : Nat} (hi : c.inside[i]? = some (r, .calling)) :
    Sound callback { c with inside := c.inside.set i (r, .called), returned := true } := by
  obtain ⟨rfl, hslot, hinside, hstores, hp⟩ := h.life.of_inside hi
  rcases hp with ⟨hp, -⟩ | ⟨-, hcallback, hcalls, -⟩ | ⟨hp, -⟩
  · exact absurd hp (by simp)
  · refine h.of_pending (by rw [hslot]) ?_
    rw [hslot, hinside, hstores, hcalls]
    exact .called r hcallback
  · exact absurd hp (by simp)

theorem sound_unwind (h : Sound callback c) {i : Nat} (hi : c.inside[i]? = some (r, .calling)) :
    Sound callback { c with inside := c.inside.eraseIdx i } := by
  obtain ⟨rfl, hslot, hinside, hstores, hp⟩ := h.life.of_inside hi
  rcases hp with ⟨hp, -⟩ | ⟨-, hcallback, hcalls, hreturned⟩ | ⟨hp, -⟩
  · exact absurd hp (by simp)
  · refine h.of_pending (by rw [hslot]) ?_
    rw [hslot, hinside, hstores, hcalls, hreturned]
    exact .unwound r hcallback
  · exact absurd hp (by simp)

/-- Only a resolver that took no callback, or whose callback has returned, marks the slot done. -/
theorem sound_finish (h : Sound callback c) {i : Nat} {p : Progress}
    (hi : c.inside[i]? = some (r, p)) (hfinal : p = .stored false ∨ p = .called) :
    Sound callback { c with slot := c.slot.finish, inside := c.inside.eraseIdx i } := by
  obtain ⟨rfl, hslot, hinside, hstores, hp⟩ := h.life.of_inside hi
  refine h.of_pending (by rw [hslot]) ?_
  rw [hslot, hinside, hstores]
  rcases hp with ⟨hp, hcalls, hreturned⟩ | ⟨hp, -⟩ | ⟨-, hcallback, hcalls, hreturned⟩
  · have hnone : callback = false := by
      rcases hfinal with hf | hf
      · simpa [hp] using hf
      · exact absurd (hp.symm.trans hf) (by simp)
    exact .done r (by rw [hcalls, hnone]; rfl) (by rw [hreturned, hnone])
  · rw [hp] at hfinal
    exact absurd hfinal (by simp)
  · exact .done r (by rw [hcalls, hcallback]; rfl) (by rw [hreturned, hcallback])

/-- What a handle answers is what the slot shows. -/
theorem sound_answer (h : Sound callback c) (hr : c.slot.peek = some r) :
    Sound callback { c with answers := c.answers ++ [r] } := by
  refine ⟨h.life, h.reported, fun r' hr' => ?_⟩
  rcases List.mem_append.mp hr' with hold | hnew
  · exact h.answers r' hold
  · obtain rfl : r' = r := by simpa using hnew
    exact hr

/-- **Every step leads along the life of the slot.** -/
theorem sound_step (h : Sound callback c) (hs : Step c c') : Sound callback c' := by
  cases hs with
  | store resolver => exact sound_store h resolver.result
  | call hi => exact sound_call h hi
  | «return» hi => exact sound_return h hi
  | unwind hi => exact sound_unwind h hi
  | finish hi hp => exact sound_finish h hi hp
  | report hdone => exact ⟨h.life, fun _ => hdone, h.answers⟩
  | answer hr => exact sound_answer h hr
  | wait hdone =>
      obtain ⟨r, hr⟩ := h.life.result_of_done hdone
      obtain ⟨hpeek, hawaited⟩ := awaited_of_done hr hdone
      rw [hawaited]
      exact sound_answer h hpeek

theorem sound_reaches (h : Sound callback c) (hs : Reaches c c') : Sound callback c' := by
  induction hs with
  | refl => exact h
  | tail _ hstep ih => exact sound_step ih hstep

/-- A result that is stored stays. -/
theorem result_step (hs : Step c c') (hr : c.slot.result = some r) : c'.slot.result = some r := by
  cases hs with
  | store resolver =>
      unfold store Slot.store
      rw [hr]
      exact hr
  | call _ => exact hr
  | «return» _ => exact hr
  | unwind _ => exact hr
  | finish _ _ => exact hr
  | report _ => exact hr
  | answer _ => exact hr
  | wait _ => exact hr

theorem result_reaches (hs : Reaches c c') (hr : c.slot.result = some r) :
    c'.slot.result = some r := by
  induction hs with
  | refl => exact hr
  | tail _ hstep ih => exact result_step hstep ih

/-! ## All steps of one resolver -/

/-- **A resolution that nobody interrupts is what the machine does in one piece.** -/
theorem run_resolve {K : Type} {m : Machine K} {id : SlotId} (hid : m.slots[id]? = some c.slot)
    (hinside : c.inside = []) (resolver : Resolver) :
    ∃ c', Reaches c c' ∧ c'.inside = []
      ∧ (m.resolve id resolver.result).slots[id]? = some c'.slot
      ∧ (m.resolve id resolver.result).calls
          = m.calls ++ (c'.calls.drop c.calls.length).map (id, ·) := by
  obtain ⟨hlt, -⟩ := List.getElem?_eq_some_iff.mp hid
  have hstore : Step c (c.store resolver.result) := .store c resolver
  cases hresult : c.slot.result with
  | some r =>
      -- the slot has a result, so the resolver leaves at once
      have hnone : c.slot.store resolver.result = none := by
        unfold Slot.store
        rw [hresult]
      refine ⟨c, .refl, hinside, ?_, ?_⟩ <;> unfold Machine.resolve <;> rw [hid] <;>
        dsimp only <;> rw [hnone]
      · exact hid
      · simp
  | none =>
      have hsome : c.slot.store resolver.result
          = some { c.slot with result := some resolver.result, callback := false } := by
        unfold Slot.store
        rw [hresult]
      have hslots : (m.resolve id resolver.result).slots[id]?
          = some { c.slot with
              result := some resolver.result, callback := false, done := true } := by
        unfold Machine.resolve
        rw [hid]
        dsimp only
        rw [hsome]
        simp [hlt, Slot.finish]
      have hcalls : (m.resolve id resolver.result).calls
          = if c.slot.callback then m.calls ++ [(id, resolver.result)] else m.calls := by
        unfold Machine.resolve
        rw [hid]
        dsimp only
        rw [hsome]
      have hstored : c.store resolver.result = { c with
          slot := { c.slot with result := some resolver.result, callback := false }
          inside := [(resolver.result, .stored c.slot.callback)]
          stores := c.stores ++ [resolver.result] } := by
        unfold store
        rw [hsome, hinside]
        rfl
      rw [hstored] at hstore
      rw [hslots, hcalls]
      cases hcallback : c.slot.callback with
      | false =>
          rw [hcallback] at hstore
          exact ⟨_, (Relation.ReflTransGen.single hstore).tail
            (.finish _ (i := 0) rfl (.inl rfl)), rfl, rfl, by simp⟩
      | true =>
          rw [hcallback] at hstore
          exact ⟨_, (((Relation.ReflTransGen.single hstore).tail (.call _ (i := 0) rfl)).tail
            (.return _ (i := 0) rfl)).tail (.finish _ (i := 0) rfl (.inr rfl)), rfl, rfl, by simp⟩

/-! ## Every order -/

/-- What the life of a slot says at each of its points: at most one result was stored, and it is
the one held; the callback was called at most once, and with it; it has returned before the slot
is done. -/
theorem Life.account {slot : Slot} {inside : List (SendResult × Progress)}
    {stores calls : List SendResult} {returned : Bool}
    (h : Life callback slot inside stores calls returned) :
    stores = slot.result.toList ∧ calls.length ≤ 1
      ∧ (∀ r ∈ calls, callback = true ∧ slot.result = some r)
      ∧ (slot.done = true → callback = true → returned = true) := by
  cases h with
  | waiting => exact ⟨rfl, Nat.zero_le _, by simp, by simp⟩
  | stored r => exact ⟨rfl, Nat.zero_le _, by simp, by simp⟩
  | calling r hcallback => exact ⟨rfl, Nat.le_refl _, by simp [hcallback], by simp⟩
  | unwound r hcallback => exact ⟨rfl, Nat.le_refl _, by simp [hcallback], by simp⟩
  | called r hcallback => exact ⟨rfl, Nat.le_refl _, by simp [hcallback], by simp⟩
  | done r hcalls hreturned =>
      refine ⟨rfl, ?_, fun r' hr' => ?_, fun _ hcallback => hreturned.trans hcallback⟩
      · rw [hcalls]
        split <;> simp
      · rw [hcalls] at hr'
        split at hr'
        · rename_i hcallback
          exact ⟨hcallback, by rw [List.mem_singleton.mp hr']⟩
        · exact absurd hr' (by simp)

/-- A handle that told anything found the slot done. -/
theorem Sound.done_of_told (h : Sound callback c) (htold : c.reported = true ∨ c.answers ≠ []) :
    c.slot.done = true := by
  rcases htold with hr | ha
  · exact h.reported hr
  · obtain ⟨r, hr⟩ := List.exists_mem_of_ne_nil _ ha
    have hpeek := h.answers r hr
    unfold Slot.peek at hpeek
    by_contra hnot
    rw [if_neg hnot] at hpeek
    exact absurd hpeek (by simp)

/-- **A slot is resolved once.** However the steps of those who resolve it and the looks of those
who hold its handle come after each other: at most one result is stored, and it stays; the callback
is called at most once, and with that result; no handle tells anything before the callback has
returned; and whatever a handle answers is that result. -/
theorem resolves_once (h : Reaches (opening callback) c) (h' : Reaches c c') :
    c.stores.length ≤ 1
      ∧ (∀ r, c.slot.result = some r → c.stores = [r] ∧ c'.slot.result = some r)
      ∧ c.calls.length ≤ 1
      ∧ (∀ r ∈ c.calls, callback = true ∧ c.slot.result = some r)
      ∧ (c.reported = true ∨ c.answers ≠ [] → callback = true → c.returned = true)
      ∧ (∀ r ∈ c.answers, c.slot.result = some r) := by
  have hsound := sound_reaches sound_opening h
  obtain ⟨hstores, hcalls, hcalled, hreturned⟩ := hsound.life.account
  refine ⟨?_, fun r hr => ⟨?_, result_reaches h' hr⟩, hcalls, hcalled,
    fun htold => hreturned (hsound.done_of_told htold), fun r hr => ?_⟩
  · rw [hstores]
    cases c.slot.result <;> simp
  · rw [hstores, hr]
    rfl
  · have hpeek := hsound.answers r hr
    unfold Slot.peek at hpeek
    rwa [if_pos (hsound.done_of_told (.inr (List.ne_nil_of_mem hr)))] at hpeek

/-- The worker stores its result; while it is in the callback the socket is closed, which comes too
late. -/
def contested : Resolving :=
  let c := (opening true).store (Resolver.worker (.ok ⟨3, 3, 1⟩)).result
  let c := { c with inside := c.inside.set 0 (.ok ⟨3, 3, 1⟩, .calling), calls := [.ok ⟨3, 3, 1⟩] }
  c.store Resolver.closing.result

theorem reaches_contested : Reaches (opening true) contested :=
  ((Relation.ReflTransGen.single (.store _ (.worker (.ok ⟨3, 3, 1⟩)))).tail
    (.call _ (i := 0) rfl)).tail (.store _ .closing)

/-- The callback has returned, and a handle that was waited for answers. -/
def settled : Resolving :=
  let c := { contested with inside := [(.ok ⟨3, 3, 1⟩, .called)], returned := true }
  let c := { c with slot := c.slot.finish, inside := [] }
  { c with answers := c.answers ++ [c.slot.awaited] }

theorem reaches_settled : Reaches contested settled :=
  ((Relation.ReflTransGen.single (.return _ (i := 0) rfl)).tail
    (.finish _ (i := 0) rfl (.inr rfl))).tail (.wait _ rfl)

theorem resolves_once_contested :
    contested.stores.length ≤ 1
      ∧ (∀ r, contested.slot.result = some r →
          contested.stores = [r] ∧ settled.slot.result = some r)
      ∧ contested.calls.length ≤ 1
      ∧ (∀ r ∈ contested.calls, true = true ∧ contested.slot.result = some r)
      ∧ (contested.reported = true ∨ contested.answers ≠ [] → true = true →
          contested.returned = true)
      ∧ (∀ r ∈ contested.answers, contested.slot.result = some r) :=
  resolves_once reaches_contested reaches_settled

example : settled.answers = [.ok ⟨3, 3, 1⟩] := by decide

end Resolving

end PacedNet
