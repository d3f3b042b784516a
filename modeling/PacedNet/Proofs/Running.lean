/-!
# Running operations

The operations of sockets and the calls of a host are of one kind: they read and
change a state and either answer or fail, and what they did before they failed stays
done. What is known of a run is read off its parts, in their order: a run of one
operation after the other is a run of the first and, unless that failed, one of the
second (`run_bind`), and where failures are dealt with one of what deals with them
(`run_tryCatch`).
-/

namespace PacedNet

variable {ε σ α β : Type} {s s' : σ}

/-- A run of two operations. -/
theorem run_bind {act : ExceptT ε (StateM σ) α} {f : α → ExceptT ε (StateM σ) β} {r : Except ε β}
    (h : (act >>= f).run s = (r, s')) :
    (∃ a s₁, act.run s = (.ok a, s₁) ∧ (f a).run s₁ = (r, s'))
      ∨ ∃ e, act.run s = (.error e, s') ∧ r = .error e := by
  have hrun : (act >>= f).run s = match act.run s with
      | (.ok a, s₁) => (f a).run s₁
      | (.error e, s₁) => (.error e, s₁) := by
    show ExceptT.bindCont f (act s).1 (act s).2 = match act s with
      | (.ok a, s₁) => (f a).run s₁
      | (.error e, s₁) => (.error e, s₁)
    rcases act s with ⟨r | r, s₁⟩ <;> rfl
  rw [hrun] at h
  cases hact : act.run s with
  | mk out s₁ =>
      rw [hact] at h
      cases out with
      | ok a => exact Or.inl ⟨a, s₁, rfl, h⟩
      | error e =>
          injection h with hr hs
          exact Or.inr ⟨e, by rw [hs], hr.symm⟩

/-- A run of two operations whose first succeeds. -/
theorem run_bind_of_ok {act : ExceptT ε (StateM σ) α} {f : α → ExceptT ε (StateM σ) β} {a : α}
    {s₁ : σ} (h : act.run s = (.ok a, s₁)) : (act >>= f).run s = (f a).run s₁ := by
  have hact : act s = (.ok a, s₁) := h
  show ExceptT.bindCont f (act s).1 (act s).2 = _
  rw [hact]
  rfl

/-- A run of two operations whose first fails. -/
theorem run_bind_of_error {act : ExceptT ε (StateM σ) α} {f : α → ExceptT ε (StateM σ) β} {e : ε}
    {s₁ : σ} (h : act.run s = (.error e, s₁)) : (act >>= f).run s = (.error e, s₁) := by
  have hact : act s = (.error e, s₁) := h
  show ExceptT.bindCont f (act s).1 (act s).2 = _
  rw [hact]
  rfl

/-- A run of two operations that succeeds. -/
theorem run_bind_ok {act : ExceptT ε (StateM σ) α} {f : α → ExceptT ε (StateM σ) β} {b : β}
    (h : (act >>= f).run s = (.ok b, s')) :
    ∃ a s₁, act.run s = (.ok a, s₁) ∧ (f a).run s₁ = (.ok b, s') := by
  rcases run_bind h with h | ⟨e, -, he⟩
  · exact h
  · exact absurd he (by simp)

/-- A run of an operation whose failure is dealt with. -/
theorem run_tryCatch {act : ExceptT ε (StateM σ) α}
    {handle : ε → ExceptT ε (StateM σ) α} {r : Except ε α}
    (h : (tryCatch act handle).run s = (r, s')) :
    (∃ a, act.run s = (.ok a, s') ∧ r = .ok a)
      ∨ ∃ e s₁, act.run s = (.error e, s₁) ∧ (handle e).run s₁ = (r, s') := by
  simp only [tryCatch, tryCatchThe, MonadExceptOf.tryCatch, ExceptT.tryCatch, ExceptT.run,
    ExceptT.mk, bind, StateT.bind] at h ⊢
  cases hact : act s with
  | mk out s₁ =>
      rw [hact] at h
      cases out with
      | ok a =>
          injection h with hr hs
          exact .inl ⟨a, by rw [hs], hr.symm⟩
      | error e => exact .inr ⟨e, s₁, rfl, h⟩

/-- A run that starts by looking at the state. -/
theorem run_get_bind {f : σ → ExceptT ε (StateM σ) β} : (get >>= f).run s = (f s).run s := rfl

/-- A run that starts by setting the state. -/
theorem run_set_bind {f : PUnit → ExceptT ε (StateM σ) β} :
    (set s' >>= f).run s = (f ⟨⟩).run s' := rfl

/-- A run that starts by changing the state. -/
theorem run_modify_bind {g : σ → σ} {f : PUnit → ExceptT ε (StateM σ) β} :
    (modify g >>= f).run s = (f ⟨⟩).run (g s) := rfl

end PacedNet
