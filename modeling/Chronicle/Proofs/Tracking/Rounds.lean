import Chronicle.Proofs.Tracking.Session

/-!
# Rounds of observation

What a transaction holds after entities were observed in it any number of times, and that the flushes of
a unit of work are such rounds. Whatever is done with a transaction before its end, its records are made
of observations by merging.

## Implementation notes

Between two rounds a program may do anything to the entities, so that every round has a store of its own.
`Transaction.holding` says once what observing does to a transaction.
-/

namespace Chronicle

/-- What one flush looks at: the shared entities as they are, and those of them that are observed. -/
structure Round where
  store : Store
  ids : List EntityId

/-- Whether all entities of a round are sound. -/
def Round.Sound (w : World) (round : Round) : Prop :=
  ∀ id e, round.store.get? id = some e → e.Sound w id

/-! ## Transactions that hold records -/

namespace Transaction

/-- The transaction with its accumulator bound and the records in it replaced. -/
def holding (t : Transaction) (records : List ChangeRecord) : Transaction :=
  let (present, bound) := Manager.accumulator t
  { bound with
    resources := { bound.resources with accumulator := some { present with records := records } } }

@[simp] theorem records_holding (t : Transaction) (records : List ChangeRecord) :
    (t.holding records).resources.records = records := rfl

@[simp] theorem isSynchronizationActive_holding (t : Transaction) (records : List ChangeRecord) :
    (t.holding records).isSynchronizationActive = t.isSynchronizationActive :=
  Manager.isSynchronizationActive_accumulator t

/-- The release of the accumulator is registered only once. -/
@[simp] theorem holding_holding (t : Transaction) (records later : List ChangeRecord) :
    (t.holding records).holding later = t.holding later := by
  obtain ⟨⟨accumulator, bound⟩, _ | registered⟩ := t
  · rfl
  · by_cases h : (accumulator.getD {}).synchronized = true <;>
      simp [holding, Manager.accumulator, h]

/-- The accumulator is bound without a change of the records. -/
theorem accumulator_snd (t : Transaction) :
    (Manager.accumulator t).2 = t.holding t.resources.records := by
  obtain ⟨⟨accumulator, bound⟩, _ | registered⟩ := t
  · cases accumulator <;> rfl
  · cases accumulator with
    | none => rfl
    | some present =>
        obtain ⟨records, synchronized⟩ := present
        cases synchronized <;> simp [holding, Manager.accumulator, Resources.records]

end Transaction

namespace Manager

variable {m : Manager} {t : Transaction}

@[simp] theorem refuses_holding (m : Manager) (t : Transaction) (records : List ChangeRecord) :
    m.refuses (t.holding records) = m.refuses t := by
  unfold refuses
  rw [Transaction.isSynchronizationActive_holding]

/-- Before a flush the transaction comes to hold what it held and what is observed. -/
theorem beforeFlush_eq (henabled : m.config.enabled = true) (hrefuses : m.refuses t = false)
    (store : Store) (ids : List EntityId) :
    m.beforeFlush store t ids =
      .ok (t.holding (ChangeRecord.absorbAll t.resources.records (m.records store ids))) := by
  rw [← records_accumulator t]
  simp only [beforeFlush, henabled, hrefuses, Bool.not_true, Bool.false_eq_true, if_false]
  rfl

/-- What is collected is what the transaction would come to hold. -/
theorem collect_eq (henabled : m.config.enabled = true) (hrefuses : m.refuses t = false)
    (store : Store) (ids : List EntityId) :
    m.collect store t ids =
      .ok (t.holding t.resources.records,
        ChangeRecord.absorbAll t.resources.records (m.records store ids)) := by
  rw [← Transaction.accumulator_snd, ← records_accumulator t]
  simp only [collect, henabled, hrefuses, Bool.not_true, Bool.false_eq_true, if_false]

/-- If observing is refused, nothing is accumulated or collected. -/
theorem refused_eq (henabled : m.config.enabled = true) (hrefuses : m.refuses t = true)
    (store : Store) (ids : List EntityId) :
    m.beforeFlush store t ids = .error .transactionRequired ∧
      m.collect store t ids = .error .transactionRequired := by
  simp [beforeFlush, collect, henabled, hrefuses]

/-- A transaction after `beforeFlush` is the same, or it holds what is observed as well. -/
theorem beforeFlush_ok {next : Transaction} {store : Store} {ids : List EntityId}
    (h : m.beforeFlush store t ids = .ok next) :
    next = t ∨
      next = t.holding (ChangeRecord.absorbAll t.resources.records (m.records store ids)) := by
  by_cases henabled : m.config.enabled = true
  · cases hrefuses : m.refuses t with
    | true =>
        rw [(refused_eq henabled hrefuses store ids).1] at h
        cases h
    | false =>
        rw [beforeFlush_eq henabled hrefuses, Except.ok.injEq] at h
        exact Or.inr h.symm
  · simp only [beforeFlush, henabled, Bool.not_false, if_true, Except.ok.injEq] at h
    exact Or.inl h.symm

/-- What is collected is nothing, or what the transaction holds with what is observed. -/
theorem collect_ok {next : Transaction} {records : List ChangeRecord} {store : Store}
    {ids : List EntityId} (h : m.collect store t ids = .ok (next, records)) :
    (next = t ∧ records = []) ∨
      ((m.config.enabled && !m.refuses t) = true ∧ next = t.holding t.resources.records ∧
        records = ChangeRecord.absorbAll t.resources.records (m.records store ids)) := by
  by_cases henabled : m.config.enabled = true
  · cases hrefuses : m.refuses t with
    | true =>
        rw [(refused_eq henabled hrefuses store ids).2] at h
        cases h
    | false =>
        rw [collect_eq henabled hrefuses, Except.ok.injEq, Prod.mk.injEq] at h
        exact Or.inr ⟨by simp [henabled], h.1.symm, h.2.symm⟩
  · simp only [collect, henabled, Bool.not_false, if_true, Except.ok.injEq, Prod.mk.injEq] at h
    exact Or.inl ⟨h.1.symm, h.2.symm⟩

/-! ## Rounds -/

/-- What is observed in rounds one after another. -/
def observations (m : Manager) (rounds : List Round) : List ChangeRecord :=
  rounds.flatMap fun round => m.records round.store round.ids

/-- The transaction after all rounds. -/
def flushAll (m : Manager) (t : Transaction) (rounds : List Round) :
    Except TransactionRequired Transaction :=
  rounds.foldlM (fun t round => m.beforeFlush round.store t round.ids) t

theorem observations_cons (m : Manager) (round : Round) (rest : List Round) :
    m.observations (round :: rest) = m.records round.store round.ids ++ m.observations rest :=
  List.flatMap_cons

theorem observations_append (m : Manager) (rounds later : List Round) :
    m.observations (rounds ++ later) = m.observations rounds ++ m.observations later :=
  List.flatMap_append

theorem absorbAll_observations_concat (m : Manager) (records : List ChangeRecord)
    (rounds : List Round) (last : Round) :
    ChangeRecord.absorbAll records (m.observations (rounds ++ [last])) =
      ChangeRecord.absorbAll (ChangeRecord.absorbAll records (m.observations rounds))
        (m.records last.store last.ids) := by
  rw [observations_append]
  simp [ChangeRecord.absorbAll, observations]

/-- After all rounds the transaction holds all observations, merged in their order. -/
theorem flushAll_eq (henabled : m.config.enabled = true) (hrefuses : m.refuses t = false)
    (rounds : List Round) :
    ∃ flushed : Transaction, m.flushAll t rounds = .ok flushed ∧ m.refuses flushed = false ∧
      flushed.resources.records =
        ChangeRecord.absorbAll t.resources.records (m.observations rounds) := by
  induction rounds generalizing t with
  | nil => exact ⟨t, rfl, hrefuses, rfl⟩
  | cons round rest ih =>
      obtain ⟨flushed, hflushed, hnext, hrecords⟩ := ih (t := t.holding
        (ChangeRecord.absorbAll t.resources.records (m.records round.store round.ids)))
        ((refuses_holding m t _).trans hrefuses)
      refine ⟨flushed, ?_, hnext, ?_⟩
      · rw [flushAll, List.foldlM_cons, beforeFlush_eq henabled hrefuses]
        exact hflushed
      · rw [hrecords, Transaction.records_holding, observations_cons]
        exact List.foldl_append.symm

end Manager

/-! ## Reachable transactions -/

/-- The transactions that a program can have before their end. -/
inductive Transaction.Reachable : Transaction → Prop
  | start : Reachable .start
  | nonTransactional : Reachable .nonTransactional
  | beforeFlush {t next : Transaction} {m : Manager} {store : Store} {ids : List EntityId} :
    Reachable t → m.beforeFlush store t ids = .ok next → Reachable next
  | collect {t next : Transaction} {m : Manager} {store : Store} {ids : List EntityId}
    {records : List ChangeRecord} :
    Reachable t → m.collect store t ids = .ok (next, records) → Reachable next
  | register {t next : Transaction} {s : Synchronization} :
    Reachable t → t.register? s = some next → Reachable next
  /-- Other resources are bound or unbound. -/
  | bind {t : Transaction} (bound : List (String × Int64)) :
    Reachable t → Reachable { t with resources := { t.resources with bound := bound } }
  /-- The accumulator is replaced by that of another transaction, or by none. -/
  | exchange {t other : Transaction} : Reachable t → Reachable other →
    Reachable { t with resources := { t.resources with accumulator := other.resources.accumulator } }

namespace Transaction.Reachable

variable {t : Transaction}

/-- What merging keeps and all observations have, all records of a reachable transaction have. -/
theorem forall_records {P : ChangeRecord → Prop}
    (hmerge : ∀ record later, P record → P later → P (record.merge later))
    (hobserved : ∀ (m : Manager) (store : Store) (ids : List EntityId),
      ∀ r ∈ m.records store ids, P r)
    (ht : t.Reachable) : ∀ r ∈ t.resources.records, P r := by
  induction ht with
  | start => simp [Transaction.start, Resources.records]
  | nonTransactional => simp [Transaction.nonTransactional, Resources.records]
  | beforeFlush _ hflush ih =>
      rcases Manager.beforeFlush_ok hflush with rfl | rfl
      · exact ih
      · exact ChangeRecord.forall_absorbAll hmerge ih (hobserved _ _ _)
  | collect _ hcollect ih =>
      rcases Manager.collect_ok hcollect with ⟨rfl, -⟩ | ⟨-, rfl, -⟩
      · exact ih
      · exact ih
  | register _ hregister ih =>
      obtain ⟨registered, -, rfl⟩ := Option.map_eq_some_iff.mp hregister
      exact ih
  | bind bound _ ih => exact ih
  | exchange _ _ _ ih => exact ih

/-- What merging keeps and all observations have, all collected records have. -/
theorem forall_collected {P : ChangeRecord → Prop}
    (hmerge : ∀ record later, P record → P later → P (record.merge later))
    (hobserved : ∀ (m : Manager) (store : Store) (ids : List EntityId),
      ∀ r ∈ m.records store ids, P r)
    (ht : t.Reachable) {m : Manager} {store : Store} {ids : List EntityId} {next : Transaction}
    {records : List ChangeRecord} (h : m.collect store t ids = .ok (next, records)) :
    ∀ r ∈ records, P r := by
  rcases Manager.collect_ok h with ⟨-, rfl⟩ | ⟨-, -, rfl⟩
  · simp
  · exact ChangeRecord.forall_absorbAll hmerge (ht.forall_records hmerge hobserved)
      (hobserved m store ids)

end Transaction.Reachable

/-! ## Units of work -/

namespace UnitOfWork

/-- The events of a commit are those of the records that are collected for it. -/
theorem commit_ok {u : UnitOfWork} {store : Store} {events : List Event}
    (h : (u.commit store).result = .ok events) :
    ∃ next records, u.manager.collect store u.transaction u.tracked = .ok (next, records) ∧
      events = records.map (·.toEvent (afterFlush store u.tracked).2) := by
  unfold commit at h
  split at h
  · cases h
  · rename_i next records hcollect
    exact ⟨next, records, hcollect, (Except.ok.inj h).symm⟩

end UnitOfWork

namespace Session

/-- What a flush would look at now. -/
def round (s : Session) : Round := ⟨s.store, s.work.tracked⟩

/-- What a step looks at, if it is a flush. -/
def roundOf? (s : Session) : Step → Option Round
  | .flush => some s.round
  | _ => none

/-- The rounds of the flushes among steps. -/
def rounds : Session → List Step → List Round
  | _, [] => []
  | s, step :: steps => (s.roundOf? step).toList ++ rounds (s.step step) steps

/-- A flush leaves the transaction that `beforeFlush` makes, unless it is refused. -/
theorem transaction_flush (s : Session) :
    s.work.manager.beforeFlush s.store s.work.transaction s.work.tracked =
        .ok (s.step .flush).work.transaction ∨
      (s.step .flush).work.transaction = s.work.transaction := by
  unfold step UnitOfWork.flush
  cases s.work.manager.beforeFlush s.store s.work.transaction s.work.tracked with
  | error refusal => exact Or.inr rfl
  | ok t => exact Or.inl rfl

theorem reachable_step {s : Session} (h : s.work.transaction.Reachable) (step : Step) :
    (s.step step).work.transaction.Reachable := by
  by_cases hstep : step = .flush
  · subst hstep
    rcases s.transaction_flush with hflush | hsame
    · exact h.beforeFlush hflush
    · exact hsame ▸ h
  · rw [s.step_move hstep]
    exact h

/-- A unit of work keeps its transaction reachable. -/
theorem reachable_run {s : Session} (h : s.work.transaction.Reachable) (steps : List Step) :
    (s.run steps).work.transaction.Reachable := by
  induction steps generalizing s with
  | nil => exact h
  | cons step rest ih => exact ih (reachable_step h step)

@[simp] theorem manager_run (s : Session) (steps : List Step) :
    (s.run steps).work.manager = s.work.manager := by
  induction steps generalizing s with
  | nil => rfl
  | cons step rest ih => exact (ih (s.step step)).trans (s.manager_step step)

@[simp] theorem observes_run (s : Session) (steps : List Step) :
    (s.run steps).observes = s.observes := by
  induction steps generalizing s with
  | nil => rfl
  | cons step rest ih => exact (ih (s.step step)).trans (s.observes_step step)

/-- After steps all that their flushes observed is accumulated. -/
theorem accumulated_run {s : Session} (hobserves : s.observes = true) (steps : List Step) :
    (s.run steps).work.accumulated =
      ChangeRecord.absorbAll s.work.accumulated (s.work.manager.observations (s.rounds steps)) := by
  induction steps generalizing s with
  | nil => rfl
  | cons step rest ih =>
      rw [run_cons, ih ((s.observes_step step).trans hobserves), manager_step, rounds,
        Manager.observations_append]
      by_cases hstep : step = .flush
      · subst hstep
        rw [accumulated_flush, if_pos hobserves, pending]
        simp [ChangeRecord.absorbAll, roundOf?, round, Manager.observations]
      · have hnone : s.roundOf? step = none := by
          cases step with
          | flush => exact absurd rfl hstep
          | _ => rfl
        rw [s.accumulated_step hstep, hnone]
        rfl

/-- Nothing is ever accumulated where nothing is observed. -/
theorem accumulated_run_of_not_observes {s : Session} (hobserves : s.observes = false)
    (steps : List Step) : (s.run steps).work.accumulated = s.work.accumulated := by
  induction steps generalizing s with
  | nil => rfl
  | cons step rest ih =>
      rw [run_cons, ih ((s.observes_step step).trans hobserves)]
      by_cases hstep : step = .flush
      · subst hstep
        rw [accumulated_flush, hobserves]
        rfl
      · exact s.accumulated_step hstep

/-- Whatever is collected after steps is nothing, or it is made of all that was observed. -/
theorem collect_run {s : Session} (hempty : s.work.accumulated = []) {steps : List Step}
    {last : Round} {next : Transaction} {records : List ChangeRecord}
    (h : s.work.manager.collect last.store (s.run steps).work.transaction last.ids =
      .ok (next, records)) :
    records = [] ∨
      records = ChangeRecord.absorbAll [] (s.work.manager.observations (s.rounds steps ++ [last])) := by
  rcases Manager.collect_ok h with ⟨-, hnothing⟩ | ⟨hactive, -, hrecords⟩
  · exact Or.inl hnothing
  · have hobserves : s.observes = true := by
      rw [← s.observes_run steps, observes, s.manager_run]
      exact hactive
    have haccumulated := accumulated_run hobserves steps
    rw [hempty] at haccumulated
    right
    rw [hrecords, Manager.absorbAll_observations_concat, ← haccumulated]
    rfl

/-! ## Sound rounds -/

variable {w : World}

theorem Sound.rounds {s : Session} (h : s.Sound w) {steps : List Step}
    (hsteps : ∀ step ∈ steps, step.Sound w) : ∀ round ∈ s.rounds steps, round.Sound w := by
  induction steps generalizing s with
  | nil => simp [Session.rounds]
  | cons step rest ih =>
      rw [List.forall_mem_cons] at hsteps
      intro round hround
      rcases List.mem_append.mp hround with hround | hround
      · cases step with
        | flush =>
            cases List.mem_singleton.mp hround
            exact h.entities
        | _ => cases hround
      · exact ih (h.step hsteps.1) hsteps.2 round hround

end Session

theorem Manager.mem_observations {m : Manager} {rounds : List Round} {record : ChangeRecord}
    (h : record ∈ m.observations rounds) :
    ∃ round ∈ rounds, record ∈ m.records round.store round.ids :=
  List.mem_flatMap.mp h

end Chronicle
