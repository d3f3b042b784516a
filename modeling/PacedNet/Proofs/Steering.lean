import PacedNet.Proofs.Overdraft
import PacedNet.Proofs.Running

/-!
# Quotas while they are used

Whoever holds a quota may set its fraction and the way it rounds, ask for bytes and copy it, in any
order. A call that sets the fraction stores a number from zero to one, or it fails and has stored
nothing at all (`perform_setFraction`, `perform_setFractionText`). All other calls leave the
fraction alone, and a copy takes it over. So every quota has a fraction from zero to one as long as
it is used, and whether a call succeeds is known from the fraction that it is given
(`Reaches.admits`).
-/

namespace PacedNet.Quota

/-- A call on a quota that is there. -/
inductive Call where
  | setFraction (fraction : Binary64)
  | setFractionText (text : String)
  | setRounding (rounding : Rounding)
  | ask (request : Request)

/-- Stores a fraction that is in range. -/
def store (fraction : Binary64) : ExceptT QuotaError (StateM Quota) Unit := do
  if inRange fraction then modify fun q => { q with fraction } else throw (.outOfRange fraction)

namespace Call

/-- What a call does, in its order: what it has stored before it fails stays stored. It answers with
a grant, if it asks for one. -/
def perform (now : Instant) : Call → ExceptT QuotaError (StateM Quota) (Option Grant)
  | setFraction fraction => do
    store fraction
    return none
  | setFractionText text => do
    match (← get).parseFraction text with
    | .ok fraction => store fraction
    | .error e => throw e
    return none
  | setRounding rounding => do
    modify fun q => { q with rounding }
    return none
  | ask request => do
    let (grant, q) := request.answer (← get) now
    set q
    return some grant

/-- What gives the fraction that a call sets. -/
def source? : Call → Option Source
  | setFraction fraction => some (.number fraction)
  | setFractionText text => some (.text text)
  | _ => none

end Call

variable {now : Instant} {q q' : Quota} {call : Call} {r : Except QuotaError (Option Grant)}

/-- What has become of a quota by a call that changes it or fails. -/
def changed (q : Quota) : Except QuotaError Quota → Except QuotaError (Option Grant) × Quota
  | .ok q' => (.ok none, q')
  | .error e => (.error e, q)

theorem run_store (fraction : Binary64) (q : Quota) :
    (store fraction).run q = match q.setFraction fraction with
      | .ok q' => (.ok (), q')
      | .error e => (.error e, q) := by
  unfold store Quota.setFraction
  split_ifs <;> rfl

/-- A call stores what its setter gives, and nothing if that gives none. -/
theorem perform_setFraction (now : Instant) (fraction : Binary64) :
    ((Call.setFraction fraction).perform now).run q = changed q (q.setFraction fraction) := by
  have hstore := run_store fraction q
  cases hset : q.setFraction fraction with
  | ok q' =>
      rw [hset] at hstore
      exact run_bind_of_ok hstore
  | error e =>
      rw [hset] at hstore
      exact run_bind_of_error hstore

theorem perform_setFractionText (text : String) :
    ((Call.setFractionText text).perform now).run q = changed q (q.setFractionText text) := by
  cases hparse : q.parseFraction text with
  | error e =>
      have hfail : q.setFractionText text = .error e := by
        unfold setFractionText
        rw [hparse]
        rfl
      rw [hfail]
      unfold Call.perform
      rw [run_get_bind, hparse]
      rfl
  | ok fraction =>
      have hset : q.setFractionText text = q.setFraction fraction := by
        unfold setFractionText
        rw [hparse]
        rfl
      rw [hset, ← perform_setFraction now]
      unfold Call.perform
      rw [run_get_bind, hparse]

/-- A request takes from the bucket and from nothing else. -/
theorem answer_keeps (now : Instant) (q : Quota) (request : Request) :
    ∃ bucket, (request.answer q now).2 = { q with bucket } := by
  rw [request.answer_eq]
  unfold reserve
  split
  · exact ⟨_, rfl⟩
  · split
    · exact ⟨_, rfl⟩
    · dsimp only
      split
      · split <;> exact ⟨_, rfl⟩
      · exact ⟨_, rfl⟩

/-! ## What a call comes to -/

/-- A call that sets the fraction succeeds exactly if it is given one that is admitted. -/
theorem perform_source {source : Source} (hsource : call.source? = some source) :
    (∃ answer q', (call.perform now).run q = (.ok answer, q')) ↔
      ∃ fraction, Gives q.capacity source fraction ∧ IsFraction fraction := by
  have hchanged : ∀ set : Except QuotaError Quota,
      (∃ answer q', changed q set = (.ok answer, q')) ↔ ∃ q', set = .ok q' := by
    intro set
    cases set with
    | ok q' => exact iff_of_true ⟨_, _, rfl⟩ ⟨_, rfl⟩
    | error e => exact iff_of_false (by simp [changed]) (by simp)
  cases call with
  | setFraction fraction =>
      obtain rfl := Option.some.inj hsource
      rw [perform_setFraction, hchanged]
      constructor
      · rintro ⟨q', hset⟩
        exact ⟨fraction, .number _, (setFraction_eq_ok.mp hset).1⟩
      · rintro ⟨given, hgives, hrange⟩
        rw [gives_number.mp hgives] at hrange
        exact ⟨_, setFraction_eq_ok.mpr ⟨hrange, rfl⟩⟩
  | setFractionText text =>
      obtain rfl := Option.some.inj hsource
      rw [perform_setFractionText, hchanged]
      constructor
      · rintro ⟨q', hset⟩
        obtain ⟨fraction, hgives, hrange, -⟩ := setFractionText_eq_ok.mp hset
        exact ⟨fraction, hgives, hrange⟩
      · rintro ⟨fraction, hgives, hrange⟩
        exact ⟨_, setFractionText_eq_ok.mpr ⟨fraction, hgives, hrange, rfl⟩⟩
  | setRounding rounding => exact absurd hsource (by simp [Call.source?])
  | ask request => exact absurd hsource (by simp [Call.source?])

/-- **A call that fails has changed nothing.** -/
theorem perform_error {e : QuotaError} (h : (call.perform now).run q = (.error e, q')) :
    q' = q := by
  have hchanged : ∀ set, changed q set = (.error e, q') → q' = q := by
    rintro (e' | q'') hset
    · exact (Prod.mk.inj hset).2.symm
    · exact absurd (Prod.mk.inj hset).1 (by simp)
  cases call with
  | setFraction fraction => exact hchanged _ (perform_setFraction now fraction ▸ h)
  | setFractionText text => exact hchanged _ (perform_setFractionText text ▸ h)
  | setRounding rounding => exact absurd (Prod.mk.inj h).1 (by simp)
  | ask request => exact absurd (Prod.mk.inj h).1 (by simp)

/-- A call leaves the fraction as it was, or one in its place that it was given and that is
admitted. -/
theorem perform_fraction (h : (call.perform now).run q = (r, q')) :
    q'.fraction = q.fraction
      ∨ ∃ source, call.source? = some source ∧ Gives q.capacity source q'.fraction
        ∧ IsFraction q'.fraction := by
  have hchanged : ∀ (source : Source) (set : Except QuotaError Quota),
      (∀ q'', set = .ok q'' → Gives q.capacity source q''.fraction ∧ IsFraction q''.fraction) →
      call.source? = some source → changed q set = (r, q') → q'.fraction = q.fraction
        ∨ ∃ source, call.source? = some source ∧ Gives q.capacity source q'.fraction
          ∧ IsFraction q'.fraction := by
    intro source set hset hsource hq
    obtain rfl : (changed q set).2 = q' := congrArg Prod.snd hq
    cases set with
    | ok q'' => exact .inr ⟨source, hsource, hset q'' rfl⟩
    | error e => exact .inl rfl
  cases call with
  | setFraction fraction =>
      refine hchanged _ _ (fun q'' hset => ?_) rfl (perform_setFraction now fraction ▸ h)
      obtain ⟨hrange, rfl⟩ := setFraction_eq_ok.mp hset
      exact ⟨.number _, hrange⟩
  | setFractionText text =>
      refine hchanged _ _ (fun q'' hset => ?_) rfl (perform_setFractionText text ▸ h)
      obtain ⟨fraction, hgives, hrange, rfl⟩ := setFractionText_eq_ok.mp hset
      exact ⟨hgives, hrange⟩
  | setRounding rounding =>
      obtain rfl : { q with rounding } = q' := congrArg Prod.snd h
      exact .inl rfl
  | ask request =>
      obtain ⟨bucket, hbucket⟩ := answer_keeps now q request
      obtain rfl : (request.answer q now).2 = q' := congrArg Prod.snd h
      exact .inl (by rw [hbucket])

/-! ## Quotas in use, and their copies -/

/-- The quotas that there are after any constructors, copies and calls. -/
inductive Reaches : List Quota → Prop where
  | nothing : Reaches []
  | unlimited {pool : List Quota} (h : Reaches pool) (now : Instant) (capacity : ByteSize) :
      Reaches (pool ++ [Quota.unlimited now capacity])
  | made {pool : List Quota} {now : Instant} {capacity : ByteSize} {source : Source} {q : Quota}
      (h : Reaches pool) (hq : make now capacity source = .ok q) : Reaches (pool ++ [q])
  | copied {pool : List Quota} {q : Quota} (h : Reaches pool) (now : Instant) (hq : q ∈ pool) :
      Reaches (pool ++ [q.clone now])
  | called {pool : List Quota} {i : Nat} {now : Instant} {call : Call} {q q' : Quota}
      {r : Except QuotaError (Option Grant)} (h : Reaches pool) (hq : pool[i]? = some q)
      (hcall : (call.perform now).run q = (r, q')) : Reaches (pool.set i q')

theorem Reaches.isFraction {pool : List Quota} (h : Reaches pool) :
    ∀ q ∈ pool, IsFraction q.fraction := by
  have hjoin : ∀ {pool : List Quota} {new : Quota}, (∀ q ∈ pool, IsFraction q.fraction) →
      IsFraction new.fraction → ∀ q ∈ pool ++ [new], IsFraction q.fraction := by
    intro pool new hpool hnew q hq
    rcases List.mem_append.mp hq with hq | hq
    · exact hpool q hq
    · exact List.mem_singleton.mp hq ▸ hnew
  induction h with
  | nothing => simp
  | unlimited h now capacity ih => exact hjoin ih (inRange_iff.mp isShare_one.inRange)
  | made h hmake ih => exact hjoin ih (make_eq_ok hmake).2
  | @copied pool q h now hq ih =>
      have hclone : (q.clone now).fraction = q.fraction := rfl
      exact hjoin ih (hclone ▸ ih q hq)
  | @called pool i now call q q' r h hq hcall ih =>
      intro p hp
      rcases List.mem_or_eq_of_mem_set hp with hp | rfl
      · exact ih p hp
      · rcases perform_fraction hcall with hsame | ⟨_, -, -, hset⟩
        · exact hsame ▸ ih q (List.mem_of_getElem? hq)
        · exact hset

/-- **What a quota admits.** Its fraction is a number from zero to one, whatever was called. A call
that fails changes nothing, a text that is set is what the quota has then, and whether a setter or a
constructor succeeds is a matter of the fraction that it is given. -/
theorem Reaches.admits {pool : List Quota} (h : Reaches pool) (hq : q ∈ pool) (now : Instant) :
    IsFraction q.fraction
      ∧ (∀ call e q', (Call.perform now call).run q = (.error e, q') → q' = q)
      ∧ (∀ text answer q', ((Call.setFractionText text).perform now).run q = (.ok answer, q') →
          q.parseFraction text = .ok q'.fraction)
      ∧ (∀ call source, Call.source? call = some source →
          ((∃ answer q', (call.perform now).run q = (.ok answer, q')) ↔
            ∃ fraction, Gives q.capacity source fraction ∧ IsFraction fraction))
      ∧ ∀ capacity source,
          ((∃ new, make now capacity source = .ok new) ↔
            ∃ fraction, Gives capacity source fraction ∧ IsFraction fraction)
          ∧ ∀ new, make now capacity source = .ok new → Gives capacity source new.fraction := by
  refine ⟨h.isFraction q hq, fun _ _ _ => perform_error, ?_, fun _ _ => perform_source,
    fun capacity source => ⟨⟨?_, ?_⟩, fun new hmake => (make_eq_ok hmake).1⟩⟩
  · intro text answer q' hset
    rw [perform_setFractionText] at hset
    cases htext : q.setFractionText text with
    | error e =>
        rw [htext] at hset
        exact absurd (congrArg Prod.fst hset) (by simp [changed])
    | ok new =>
        rw [htext] at hset
        obtain rfl : new = q' := congrArg Prod.snd hset
        obtain ⟨fraction, hgives, -, rfl⟩ := setFractionText_eq_ok.mp htext
        exact parseFraction_eq_ok.mpr hgives
  · rintro ⟨new, hmake⟩
    exact ⟨_, make_eq_ok hmake⟩
  · rintro ⟨fraction, hgives, hrange⟩
    obtain ⟨_, hmake⟩ := exists_make now hgives hrange
    exact ⟨_, hmake⟩

/-- A quarter of a hundred bytes a second. -/
def quarter : Quota := { Quota.unlimited 0 (.clamp 100) with fraction := .finite false (1 / 4) }

/-- A quota that is copied and told to be one and a half: it fails, and both stay a quarter. -/
theorem Reaches.admits_quarter :
    Reaches [quarter, quarter.clone 1]
      ∧ ((Call.setFractionText "150 %").perform 2).run quarter
        = (.error (.outOfRange (.finite false (3 / 2))), quarter)
      ∧ IsFraction quarter.fraction ∧ IsFraction (quarter.clone 1).fraction
      ∧ ¬ ∃ fraction, Gives quarter.capacity (.text "150 %") fraction ∧ IsFraction fraction := by
  have hread : readShare "25%".toList = some (.ok (.finite false (1 / 4))) := by decide +kernel
  have hmade : make 0 (.clamp 100) (.text "25%") = .ok quarter :=
    setFractionText_eq_ok.mpr ⟨_, .share hread, inRange_iff.mp (by decide +kernel), rfl⟩
  have hpool : Reaches [quarter, quarter.clone 1] :=
    .copied (.made .nothing hmade) 1 (List.mem_singleton.mpr rfl)
  have hrefused : quarter.setFractionText "150 %"
      = .error (.outOfRange (.finite false (3 / 2))) := by decide +kernel
  have hrun : ((Call.setFractionText "150 %").perform 2).run quarter
      = (.error (.outOfRange (.finite false (3 / 2))), quarter) := by
    rw [perform_setFractionText, hrefused]
    rfl
  obtain ⟨hfraction, -, -, hsource, -⟩ := Reaches.admits hpool (List.mem_cons_self ..) 2
  obtain ⟨hcopied, -⟩ := Reaches.admits hpool (List.mem_cons_of_mem _ (List.mem_singleton_self _)) 2
  refine ⟨hpool, hrun, hfraction, hcopied, fun hadmitted => ?_⟩
  obtain ⟨answer, q', hok⟩ := (hsource (.setFractionText "150 %") _ rfl).mpr hadmitted
  rw [hrun] at hok
  exact absurd (congrArg Prod.fst hok) (by simp)

end PacedNet.Quota
