import PacedNet.Proofs.Socket.Interleaving

/-!
# What an operation has done

An operation that is on its way has done some of its steps, and others have done theirs between
them. Its own steps alone tell how far it has come (`Script.Does`): each was done in whatever state
it found, and they stand in the log of all steps in the same order (`Traffic.done_sublist`). So what
is to be known of an operation that has ended is read off its own steps, part after part
(`Script.does_bind`).
-/

namespace PacedNet

variable {K : Type}

namespace Script

variable {α β : Type}

/-- A script has done these steps, and goes on as another. -/
inductive Does : Script K α → List (Moment K) → Script K α → Prop where
  | nil (s : Script K α) : Does s [] s
  | cons {act : Machine K → Event × Machine K} {rest : Machine K → Script K α}
      {own : List (Moment K)} {s : Script K α} (m : Machine K) : Does (rest m) own s →
      Does (next act rest) (⟨m, (act m).1, (act m).2⟩ :: own) s

variable {s s' : Script K α} {own : List (Moment K)}

/-- The next step. -/
theorem Does.snoc {act : Machine K → Event × Machine K} {rest : Machine K → Script K α}
    (h : s.Does own (next act rest)) (m : Machine K) :
    s.Does (own ++ [⟨m, (act m).1, (act m).2⟩]) (rest m) := by
  generalize hs' : next act rest = s' at h
  induction h with
  | nil s =>
      subst hs'
      exact .cons m (.nil _)
  | cons m₀ _ ih => exact .cons m₀ (ih hs')

/-- Nothing is done after the end. -/
theorem does_ended {answer r : Except Failure α}
    (h : (ended answer : Script K α).Does own (ended r)) : own = [] ∧ r = answer := by
  cases h with
  | nil => exact ⟨rfl, rfl⟩

/-- A single step. -/
theorem does_step {event : Machine K → Except Failure α → Event} {act : Act K α}
    {r : Except Failure α} (h : (step event act).Does own (ended r)) :
    ∃ m m', own = [⟨m, event m r, m'⟩] ∧ act.run m = (r, m') := by
  cases h with
  | cons m hrest =>
      obtain ⟨rfl, rfl⟩ := does_ended hrest
      exact ⟨m, _, rfl, rfl⟩

/-- One script after the other. -/
theorem Does.bind {f : α → Script K β} {a : α} {more : List (Moment K)} {t : Script K β}
    (h : s.Does own (ended (.ok a))) (hf : (f a).Does more t) :
    (s >>= f).Does (own ++ more) t := by
  generalize hended : ended (.ok a) = s' at h
  induction h with
  | nil s =>
      subst hended
      exact hf
  | cons m _ ih => exact .cons m (ih hended)

instance : LawfulMonad (Script K) := LawfulMonad.mk' _
  (fun s => by
    induction s with
    | ended answer => cases answer <;> rfl
    | next act rest ih => exact congrArg (next act) (funext ih))
  (fun _ _ => rfl)
  (fun s f g => by
    induction s with
    | ended answer => cases answer <;> rfl
    | next act rest ih => exact congrArg (next act) (funext ih))

/-- What has ended came to its end in the first part, or in the one after it. -/
theorem does_bind {f : α → Script K β} {r : Except Failure β}
    (h : (s >>= f).Does own (ended r)) :
    (∃ a first second, own = first ++ second ∧ s.Does first (ended (.ok a))
        ∧ (f a).Does second (ended r))
      ∨ ∃ e, s.Does own (ended (.error e)) ∧ r = .error e := by
  induction s generalizing own with
  | ended answer =>
      cases answer with
      | ok a => exact .inl ⟨a, [], own, rfl, .nil _, h⟩
      | error e =>
          replace h : (ended (.error e) : Script K β).Does own (ended r) := h
          obtain ⟨rfl, rfl⟩ := does_ended h
          exact .inr ⟨e, .nil _, rfl⟩
  | next act rest ih =>
      replace h : (next act fun m => rest m >>= f).Does own (ended r) := h
      cases h with
      | cons m hrest =>
          rcases ih m hrest with ⟨a, first, second, rfl, hs, hf⟩ | ⟨e, hs, he⟩
          · exact .inl ⟨a, _, second, rfl, .cons m hs, hf⟩
          · exact .inr ⟨e, .cons m hs, he⟩

/-- What comes to nothing did so before its answer was made. -/
theorem does_return {f : α → β} {e : Failure}
    (h : (do return f (← s) : Script K β).Does own (ended (.error e))) :
    s.Does own (ended (.error e)) := by
  rcases does_bind h with ⟨a, first, second, -, -, hreturn⟩ | ⟨failure, hs, he⟩
  · exact absurd (does_ended hreturn).2 (by simp)
  · injection he with he
    exact he ▸ hs

end Script

namespace Traffic

variable [Kernel K] {admits : Socket → Operation → Prop} {aside : Machine K → Machine K → Prop}
  {c : Traffic K} {m : Machine K} {t : Task K}

/-- Each operation has come where its own steps have led it. -/
theorem does_reaches (h : Reaches admits aside (start m) c) (ht : t ∈ c.tasks) :
    admits t.socket t.op ∧ ∃ more, (t.op.script t.socket more).Does t.done t.script := by
  induction h generalizing t with
  | refl => exact absurd ht (by simp [start])
  | tail _ hstep ih =>
      cases hstep with
      | setOut more hop =>
          rcases List.mem_append.mp ht with hold | hnew
          · exact ih hold
          · obtain rfl := List.mem_singleton.mp hnew
            exact ⟨hop, more, .nil _⟩
      | proceed hi hnext =>
          rcases List.mem_or_eq_of_mem_set ht with hold | rfl
          · exact ih hold
          · obtain ⟨hop, more, hdoes⟩ := ih (List.mem_of_getElem? hi)
            rw [hnext] at hdoes
            exact ⟨hop, more, hdoes.snoc _⟩
      | aside _ => exact ih ht

/-- The steps of an operation are among all steps, in their order. -/
theorem done_sublist (h : Reaches admits aside (start m) c) (ht : t ∈ c.tasks) :
    t.done.Sublist c.log := by
  induction h generalizing t with
  | refl => exact absurd ht (by simp [start])
  | tail _ hstep ih =>
      cases hstep with
      | setOut more hop =>
          rcases List.mem_append.mp ht with hold | hnew
          · exact ih hold
          · obtain rfl := List.mem_singleton.mp hnew
            exact List.nil_sublist _
      | proceed hi hnext =>
          rcases List.mem_or_eq_of_mem_set ht with hold | rfl
          · exact (ih hold).trans (List.sublist_append_left _ _)
          · exact (ih (List.mem_of_getElem? hi)).append_right _
      | aside _ => exact ih ht

end Traffic

end PacedNet
