import Chronicle.Proofs.Sample.World
import Chronicle.Proofs.Tracking.Rounds

/-!
# Flushing, effect by effect

A flush as the sequence of what it does: it looks at the entities, asks whether the transaction will do,
registers the release of the accumulator, binds the accumulator, marks it, and merges the records. Each of
these effects stays where a later one fails, and a registration can fail in a way of its own. Nevertheless a
flush that fails has done nothing, and it fails in one way only.

## Implementation notes

`Manager.beforeFlush`, `Manager.collect` and `UnitOfWork.flush` answer an error instead of a transaction, so
that nothing can be said of the state that an error leaves. Here every error comes with the session as the
effects before it left it. The specification of each procedure says that it is the function of the same
name, and that the session is the old one where that function answers an error.
-/

namespace Chronicle

/-- The errors with which an effect can end. -/
inductive TrackingError where
  | transactionRequired
  /-- Something is registered where there is no synchronization. -/
  | synchronizationNotActive
deriving DecidableEq

/-- The error for which observing is refused. -/
def TransactionRequired.toError : TransactionRequired → TrackingError
  | .transactionRequired => .transactionRequired

/-- What is done to a unit of work and the shared entities, one effect after another. The effects before
an error stay. -/
abbrev Effect (α : Type) := ExceptT TrackingError (StateM Session) α

namespace Session

/-- The session with another transaction. -/
def withTransaction (s : Session) (t : Transaction) : Session :=
  { s with work := { s.work with transaction := t } }

/-- Whether observing has to be refused: it is enabled, it asks for a transaction, and there is no
synchronization. -/
def Refused (s : Session) : Prop :=
  s.work.manager.config.enabled = true ∧ s.work.manager.config.requireTransaction = true ∧
    s.work.transaction.isSynchronizationActive = false

end Session

/-- The accumulator that is accessed is bound from then on. -/
theorem Manager.bound_accumulator (t : Transaction) :
    (Manager.accumulator t).2.resources.accumulator = some (Manager.accumulator t).1 := by
  obtain ⟨⟨present, bound⟩, _ | registered⟩ := t
  · rfl
  · rcases present with _ | ⟨records, _ | _⟩ <;> rfl

namespace Effect

/-! ## The effects -/

/-- Changes the transaction. -/
def modifyTransaction (f : Transaction → Transaction) : Effect Unit :=
  modify fun s => s.withTransaction (f s.work.transaction)

/-- Registers a synchronization, if there is synchronization. -/
def register (synchronization : Synchronization) : Effect Unit := do
  match (← get).work.transaction.register? synchronization with
  | some next => modifyTransaction fun _ => next
  | none => throw .synchronizationNotActive

/-- Binds an accumulator unless one is bound, and changes it. -/
def modifyAccumulator (f : Accumulator → Accumulator) : Effect Unit :=
  modifyTransaction fun t => { t with
    resources := { t.resources with accumulator := some (f (t.resources.accumulator.getD {})) } }

/-- Binds the accumulator at the first access, after its release was registered where there is
synchronization, and marks it then. -/
def bindAccumulator : Effect Accumulator := do
  let t := (← get).work.transaction
  let synchronized := (t.resources.accumulator.map Accumulator.synchronized).getD false
  let registers := t.isSynchronizationActive && !synchronized
  if registers then register .releasing
  modifyAccumulator id
  if registers then modifyAccumulator ({ · with synchronized := true })
  return (← get).work.transaction.resources.accumulator.getD {}

/-- The accumulator of the transaction, if the transaction will do. -/
def accumulator : Effect Accumulator := do
  let s ← get
  if s.work.manager.refuses s.work.transaction then throw .transactionRequired
  bindAccumulator

/-- Observes entities, and only then accesses the accumulator to merge the records into it. -/
def beforeFlush (ids : List EntityId) : Effect Unit := do
  let s ← get
  if s.work.manager.config.enabled then
    let observed := s.work.manager.records s.store ids
    let present ← accumulator
    modifyAccumulator ({ · with records := ChangeRecord.absorbAll present.records observed })

/-- Accesses the accumulator, and only then observes entities. -/
def collect (ids : List EntityId) : Effect (List ChangeRecord) := do
  if (← get).work.manager.config.enabled then
    let present ← accumulator
    let s ← get
    return ChangeRecord.absorbAll present.records (s.work.manager.records s.store ids)
  return []

/-- Observes the tracked entities, and writes them if that did not fail. -/
def flush : Effect Unit := do
  beforeFlush (← get).work.tracked
  modify fun s => s.written s.work.transaction

/-! ## Running effects -/

section Run

variable {α β : Type} (s : Session)

@[simp] theorem run_pure (a : α) : (pure a : Effect α).run s = (.ok a, s) := rfl

@[simp] theorem run_throw (e : TrackingError) : (throw e : Effect α).run s = (.error e, s) := rfl

@[simp] theorem run_get : (get : Effect Session).run s = (.ok s, s) := rfl

@[simp] theorem run_modify (f : Session → Session) : (modify f : Effect Unit).run s = (.ok (), f s) := rfl

/-- An effect starts where the one before it ended, unless that one failed. -/
@[simp] theorem run_bind (x : Effect α) (f : α → Effect β) :
    (x >>= f).run s =
      match x.run s with
      | (.ok a, next) => (f a).run next
      | (.error e, next) => (.error e, next) := by
  change (match x.run s with | (r, next) => ExceptT.bindCont f r next) = _
  rcases x.run s with ⟨_ | _, _⟩ <;> rfl

end Run

/-! ## Their specifications -/

/-- What a function answers, with the session to which it leads: the old one where it answers an error. -/
def outcome {α : Type} (s : Session) :
    Except TransactionRequired (α × Session) → Except TrackingError α × Session
  | .ok (a, next) => (.ok a, next)
  | .error refusal => (.error refusal.toError, s)

@[simp] theorem run_modifyAccumulator (f : Accumulator → Accumulator) (s : Session) :
    (modifyAccumulator f).run s = (.ok (), s.withTransaction { s.work.transaction with
      resources := { s.work.transaction.resources with
        accumulator := some (f (s.work.transaction.resources.accumulator.getD {})) } }) := rfl

theorem run_bindAccumulator (s : Session) :
    bindAccumulator.run s =
      (.ok (Manager.accumulator s.work.transaction).1,
        s.withTransaction (Manager.accumulator s.work.transaction).2) := by
  obtain ⟨⟨m, ⟨⟨present, bound⟩, _ | registered⟩, tracked⟩, store⟩ := s
  · cases present <;> rfl
  · rcases present with _ | ⟨records, _ | _⟩ <;> rfl

theorem run_accumulator (s : Session) :
    accumulator.run s =
      if s.work.manager.refuses s.work.transaction then (.error .transactionRequired, s)
      else (.ok (Manager.accumulator s.work.transaction).1,
        s.withTransaction (Manager.accumulator s.work.transaction).2) := by
  by_cases h : s.work.manager.refuses s.work.transaction = true
  · simp [accumulator, h]
  · simp [accumulator, h, run_bindAccumulator]

theorem run_beforeFlush (ids : List EntityId) (s : Session) :
    (beforeFlush ids).run s =
      outcome s ((s.work.manager.beforeFlush s.store s.work.transaction ids).map fun next =>
        ((), s.withTransaction next)) := by
  by_cases henabled : s.work.manager.config.enabled = true
  · by_cases h : s.work.manager.refuses s.work.transaction = true
    · simp only [beforeFlush, Manager.beforeFlush, henabled, h, run_bind, run_get, run_accumulator,
        if_true, Bool.false_eq_true, if_false, Bool.not_true]
      rfl
    · simp only [beforeFlush, Manager.beforeFlush, henabled, h, run_bind, run_get, run_accumulator,
        if_true, Bool.false_eq_true, if_false, Bool.not_true, run_modifyAccumulator,
        Session.withTransaction, Manager.bound_accumulator, Option.getD_some]
      rfl
  · simp only [beforeFlush, Manager.beforeFlush, henabled, run_bind, run_get, run_pure,
      Bool.not_false, if_true, Bool.false_eq_true, if_false]
    rfl

theorem run_collect (ids : List EntityId) (s : Session) :
    (collect ids).run s =
      outcome s ((s.work.manager.collect s.store s.work.transaction ids).map fun (next, records) =>
        (records, s.withTransaction next)) := by
  by_cases henabled : s.work.manager.config.enabled = true
  · by_cases h : s.work.manager.refuses s.work.transaction = true
    · simp only [collect, Manager.collect, henabled, h, run_bind, run_get, run_accumulator,
        if_true, Bool.false_eq_true, if_false, Bool.not_true]
      rfl
    · simp only [collect, Manager.collect, henabled, h, run_bind, run_get, run_accumulator,
        if_true, Bool.false_eq_true, if_false, Bool.not_true]
      rfl
  · simp only [collect, Manager.collect, henabled, run_bind, run_get, run_pure, Bool.not_false,
      if_true, Bool.false_eq_true, if_false]
    rfl

theorem run_flush (s : Session) :
    flush.run s = outcome s ((s.work.flush s.store).map fun pair => ((), .ofPair pair)) := by
  simp only [flush, run_bind, run_get, run_beforeFlush, UnitOfWork.flush]
  cases s.work.manager.beforeFlush s.store s.work.transaction s.work.tracked <;> rfl

/-! ## Failing cleanly -/

/-- Whether an effect fails for want of a transaction only, exactly if observing has to be refused, and
has then changed nothing. -/
structure FailsCleanly {α : Type} (x : Effect α) (s : Session) : Prop where
  unchanged : ∀ e after, x.run s = (.error e, after) → e = .transactionRequired ∧ after = s
  fails_iff : (∃ after, x.run s = (.error .transactionRequired, after)) ↔ s.Refused

end Effect

/-- Observing is refused exactly if it is enabled and the transaction will not do. -/
theorem Session.refused_iff (s : Session) :
    s.Refused ↔ s.work.manager.config.enabled = true ∧
      s.work.manager.refuses s.work.transaction = true := by
  simp [Refused, Manager.refuses]

namespace Manager

variable (m : Manager) (store : Store) (t : Transaction) (ids : List EntityId)

theorem beforeFlush_error_iff :
    (∃ refusal, m.beforeFlush store t ids = .error refusal) ↔
      m.config.enabled = true ∧ m.refuses t = true := by
  unfold beforeFlush
  split_ifs with henabled hrefuses
  · simp_all
  · exact iff_of_true ⟨_, rfl⟩ ⟨by simpa using henabled, hrefuses⟩
  · simp_all

theorem collect_error_iff :
    (∃ refusal, m.collect store t ids = .error refusal) ↔
      m.config.enabled = true ∧ m.refuses t = true := by
  unfold collect
  split_ifs with henabled hrefuses
  · simp_all
  · exact iff_of_true ⟨_, rfl⟩ ⟨by simpa using henabled, hrefuses⟩
  · simp_all

end Manager

namespace Effect

variable {α β : Type} {x : Effect α} {s : Session} {r : Except TransactionRequired β}

/-- An effect that does what a function answers, and nothing where it answers an error, fails cleanly if
the function answers an error exactly where observing has to be refused. -/
theorem FailsCleanly.of_run {f : β → α × Session} (hrun : x.run s = outcome s (r.map f))
    (hr : (∃ refusal, r = .error refusal) ↔ s.Refused) : x.FailsCleanly s := by
  cases r with
  | ok b =>
      have hnever : ¬s.Refused := fun h => by
        obtain ⟨refusal, hrefusal⟩ := hr.mpr h
        cases hrefusal
      refine ⟨fun e after h => ?_, iff_of_false ?_ hnever⟩
      · rw [hrun] at h
        cases h
      · rintro ⟨after, h⟩
        rw [hrun] at h
        cases h
  | error refusal =>
      have hrefused : s.Refused := hr.mp ⟨refusal, rfl⟩
      refine ⟨fun e after h => ?_, iff_of_true ⟨s, hrun⟩ hrefused⟩
      rw [hrun] at h
      cases h
      exact ⟨rfl, rfl⟩

theorem failsCleanly_beforeFlush (ids : List EntityId) (s : Session) : (beforeFlush ids).FailsCleanly s :=
  .of_run (run_beforeFlush ids s)
    ((s.work.manager.beforeFlush_error_iff s.store s.work.transaction ids).trans s.refused_iff.symm)

theorem failsCleanly_collect (ids : List EntityId) (s : Session) : (collect ids).FailsCleanly s :=
  .of_run (run_collect ids s)
    ((s.work.manager.collect_error_iff s.store s.work.transaction ids).trans s.refused_iff.symm)

theorem failsCleanly_flush (s : Session) : flush.FailsCleanly s := by
  refine .of_run (run_flush s) (Iff.trans ?_
    ((s.work.manager.beforeFlush_error_iff s.store s.work.transaction s.work.tracked).trans
      s.refused_iff.symm))
  unfold UnitOfWork.flush
  cases s.work.manager.beforeFlush s.store s.work.transaction s.work.tracked <;> simp [Except.map]

end Effect

/-! ## Runs of refused flushes -/

/-- Whether a step is a flush. -/
def Step.isFlush : Step → Bool
  | .flush => true
  | _ => false

namespace Session

variable {s : Session}

theorem refused_iff_observes (s : Session) :
    s.Refused ↔ s.work.manager.config.enabled = true ∧ s.observes = false := by
  rw [refused_iff, observes]
  cases s.work.manager.config.enabled <;> simp

@[simp] theorem refused_step (s : Session) (step : Step) : (s.step step).Refused ↔ s.Refused := by
  rw [refused_iff_observes, refused_iff_observes, observes_step, manager_step]

theorem refused_run (s : Session) (steps : List Step) : (s.run steps).Refused ↔ s.Refused := by
  induction steps generalizing s with
  | nil => exact Iff.rfl
  | cons first rest ih => exact (ih (s.step first)).trans (s.refused_step first)

theorem step_flush_of_refused (h : s.Refused) : s.step .flush = s := by
  rcases s.step_flush with ⟨-, hsame⟩ | ⟨t, -, -, -⟩
  · exact hsame
  · obtain ⟨refusal, hrefusal⟩ := (s.work.manager.beforeFlush_error_iff s.store s.work.transaction
      s.work.tracked).mpr (s.refused_iff.mp h)
    simp only [step, UnitOfWork.flush, hrefusal]
    rfl

/-- Where flushes are refused, a run is the run without them. -/
theorem run_of_refused (h : s.Refused) (steps : List Step) :
    s.run steps = s.run (steps.filter fun step => !step.isFlush) := by
  induction steps generalizing s with
  | nil => rfl
  | cons first rest ih =>
      cases first with
      | flush =>
          rw [run_cons, step_flush_of_refused h]
          exact ih h
      | _ => exact ih ((s.refused_step _).mpr h)

end Session

/-- In every state of a unit of work, and for any entities, a flush, an observation before a flush and a
collection fail exactly if observing is enabled, needs a transaction and has none, and in no other way. An
effect that fails has left everything as it was: what is tracked, the entities with their listeners, the
resources with the accumulator, and what is registered. These effects are the functions of the same names.
Observing is refused at every moment of a run or at none, and where it is refused a run is the run without
its flushes. -/
theorem refused_changes_nothing (s : Session) (ids : List EntityId) :
    (Effect.flush.FailsCleanly s ∧ (Effect.beforeFlush ids).FailsCleanly s ∧
        (Effect.collect ids).FailsCleanly s) ∧
      (Effect.flush.run s =
          Effect.outcome s ((s.work.flush s.store).map fun pair => ((), .ofPair pair)) ∧
        (Effect.beforeFlush ids).run s =
          Effect.outcome s ((s.work.manager.beforeFlush s.store s.work.transaction ids).map fun next =>
            ((), s.withTransaction next)) ∧
        (Effect.collect ids).run s =
          Effect.outcome s ((s.work.manager.collect s.store s.work.transaction ids).map
            fun (next, records) => (records, s.withTransaction next))) ∧
      ∀ steps, ((s.run steps).Refused ↔ s.Refused) ∧
        (s.Refused → s.run steps = s.run (steps.filter fun step => !step.isFlush)) :=
  ⟨⟨Effect.failsCleanly_flush s, Effect.failsCleanly_beforeFlush ids s, Effect.failsCleanly_collect ids s⟩,
    ⟨Effect.run_flush s, Effect.run_beforeFlush ids s, Effect.run_collect ids s⟩,
    fun steps => ⟨s.refused_run steps, fun h => Session.run_of_refused h steps⟩⟩

namespace Sample

/-- A unit of work that asks for a transaction and has none, with a person. -/
def unsupported : Session := ⟨⟨{}, .nonTransactional, []⟩, ⟨[ann]⟩⟩

theorem refused_unsupported : unsupported.Refused := ⟨rfl, rfl, rfl⟩

end Sample

open Sample in
/-- The flush at the end of a change is refused, with the change still pending and nothing registered. -/
theorem recreation_flush_refused :
    unsupported.Refused ∧
      Effect.flush.run (unsupported.run recreation) =
        (.error .transactionRequired, unsupported.run recreation) ∧
      unsupported.run recreation = unsupported.run (recreation.take 2) ∧
      ∃ e, (unsupported.run recreation).store.get? 0 = some e ∧ e.changeListener.isSome = true := by
  have hrun := ((refused_changes_nothing unsupported []).2.2 recreation).2 refused_unsupported
  have hrefused := ((refused_changes_nothing unsupported []).2.2 recreation).1.mpr refused_unsupported
  obtain ⟨⟨hflush, -⟩, -⟩ := refused_changes_nothing (unsupported.run recreation) []
  obtain ⟨after, hafter⟩ := hflush.fails_iff.mpr hrefused
  obtain ⟨-, hsame⟩ := hflush.unchanged _ after hafter
  exact ⟨refused_unsupported, hafter.trans (by rw [hsame]), hrun, _, rfl, rfl⟩

end Chronicle
