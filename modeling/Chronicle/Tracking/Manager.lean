import Chronicle.Event.Publication
import Chronicle.Tracking.Extract
import Chronicle.Transaction.Basic

/-!
# The change manager

Observing what happened to entities and accumulating it in a transaction.

## Implementation notes

An entity without a change listener is not observed unless it is new. Accumulated records are merged by
entity; what is collected at the end is merged with them in the same way and not kept.
-/

namespace Chronicle

/-- The only reason for which observing is refused: the configuration asks for a transaction and there
is no synchronization. -/
inductive TransactionRequired where
  | transactionRequired
deriving DecidableEq, Repr

/-- What is observed about an entity, and what is warned of meanwhile. -/
structure Observation where
  record : ChangeRecord
  warnings : List Warning

/-- Whether the property that marks an entity as deleted was null and is not null any more. -/
def Entity.isMarkedDeleted (e : Entity) (changes : Source) : Bool :=
  match e.object.type.softDelete with
  | none => false
  | some marker =>
    match changes.old? marker with
    | some (.value .null) => ((e.object.get? marker).getD .null).isNull = false
    | _ => false

/-- Whether an entity is deleted: by its state or by its mark. -/
def Entity.isDeleted (e : Entity) (changes : Source) : Bool :=
  e.state = .deleted || e.isMarkedDeleted changes

/-- How entities are observed. -/
structure Manager where
  config : TrackingConfig := {}
  /-- Whether an entity is deleted, given what is known of its changes. -/
  isDeleted : Entity → Source → Bool := Entity.isDeleted

namespace Manager

/-- What is observed about an entity. -/
def observation? (m : Manager) (id : EntityId) (e : Entity) : Option Observation :=
  let observed (type : ChangeType) (diff : Diff) (warnings : List Warning) : Option Observation :=
    some ⟨⟨id, type, diff, e.object.type.canonicalName⟩, warnings⟩
  if e.state = .new then observed .created e.object.presence []
  else
    match e.changeListener with
    | none => none
    | some listener =>
      let changes := listener.source
      if m.isDeleted e changes then observed .deleted e.object.snapshot e.object.snapshotWarnings
      else if changes.hasChanges then
        observed .updated changes.recording.diff changes.recording.warnings
      else none

/-- What is observed about entities, in their order. -/
def observe (m : Manager) (store : Store) (ids : List EntityId) : List Observation :=
  ids.filterMap fun id => (store.get? id).bind (m.observation? id)

/-- The records of what is observed about entities. -/
def records (m : Manager) (store : Store) (ids : List EntityId) : List ChangeRecord :=
  (m.observe store ids).map Observation.record

/-- What is warned of when entities are observed. -/
def warnings (m : Manager) (store : Store) (ids : List EntityId) : List Warning :=
  (m.observe store ids).flatMap Observation.warnings

/-- Whether observing in a transaction is refused. -/
def refuses (m : Manager) (t : Transaction) : Bool :=
  m.config.requireTransaction && !t.isSynchronizationActive

/-- The accumulator of a transaction, and the transaction in which it is bound: at its first use it is
bound, and where there is synchronization its release is registered once. -/
def accumulator (t : Transaction) : Accumulator × Transaction :=
  let present := t.resources.accumulator.getD {}
  match t.synchronizations with
  | some registered =>
    if present.synchronized then (present, t)
    else
      let bound := { present with synchronized := true }
      (bound,
        { resources := { t.resources with accumulator := some bound }
          synchronizations := some (registered ++ [.releasing]) })
  | none => (present, { t with resources := { t.resources with accumulator := some present } })

/-- Observes entities before they are written, and accumulates the records in the transaction. -/
def beforeFlush (m : Manager) (store : Store) (t : Transaction) (ids : List EntityId) :
    Except TransactionRequired Transaction :=
  if !m.config.enabled then .ok t
  else if m.refuses t then .error .transactionRequired
  else
    let (present, t) := accumulator t
    let records := ChangeRecord.absorbAll present.records (m.records store ids)
    .ok { t with
      resources := { t.resources with accumulator := some { present with records := records } } }

/-- What is warned of by `beforeFlush`: the entities are observed even if the transaction is refused. -/
def flushWarnings (m : Manager) (store : Store) (ids : List EntityId) : List Warning :=
  if m.config.enabled then m.warnings store ids else []

/-- The accumulated records with what is observed about entities merged into them; the accumulator
keeps what it had. -/
def collect (m : Manager) (store : Store) (t : Transaction) (ids : List EntityId) :
    Except TransactionRequired (Transaction × List ChangeRecord) :=
  if !m.config.enabled then .ok (t, [])
  else if m.refuses t then .error .transactionRequired
  else
    let (present, t) := accumulator t
    .ok (t, ChangeRecord.absorbAll present.records (m.records store ids))

/-- What is warned of by `collect`: nothing is observed if the transaction is refused. -/
def collectWarnings (m : Manager) (store : Store) (t : Transaction) (ids : List EntityId) :
    List Warning :=
  if m.config.enabled && !m.refuses t then m.warnings store ids else []

end Manager

end Chronicle
