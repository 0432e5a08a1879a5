import Chronicle.Tracking.Manager

/-!
# Units of work

A unit of work tracks shared entities in one transaction: it installs change listeners, observes the
entities before they are written, moves them through their life cycle, and turns what was accumulated
into events when it is committed.

## Implementation notes

A unit of work is used up by its end. One that cannot be committed gives up its transaction, which is
rolled back by that; the entities stay as they are.
-/

namespace Chronicle

/-- A unit of work. -/
structure UnitOfWork where
  manager : Manager
  transaction : Transaction
  /-- The entities in the order in which they were tracked. -/
  tracked : List EntityId := []

/-- How a unit of work ended. -/
structure WorkEnd (α : Type) where
  store : Store
  completion : Completion
  result : α

namespace Entity

/-- The entity in a state. -/
def withState (e : Entity) (state : LifecycleState) : Entity := { e with state := state }

/-- The entity with a change listener, if its setters notify and there is none. -/
def observed (e : Entity) : Entity :=
  if e.object.type.enhanced && e.changeListener.isNone then
    { e with changeListener := some .fresh }
  else e

/-- The entity without its change listener. -/
def unobserved (e : Entity) : Entity := { e with changeListener := none }

/-- The entity after it was written. -/
def flushed (e : Entity) : Entity :=
  match e.state with
  | .new => (e.withState .managed).clearChanges
  | .managed => e.clearChanges
  | .deleted => e.unobserved

end Entity

namespace UnitOfWork

/-- Tracks an entity in a state. -/
def track (u : UnitOfWork) (store : Store) (id : EntityId) (state : LifecycleState) :
    UnitOfWork × Store :=
  ({ u with tracked := if u.tracked.contains id then u.tracked else u.tracked ++ [id] },
    store.modify id fun e => (e.withState state).observed)

/-- Tracks a new entity. -/
def persist (u : UnitOfWork) (store : Store) (id : EntityId) : UnitOfWork × Store :=
  u.track store id .new

/-- Tracks an entity that was written before. -/
def attach (u : UnitOfWork) (store : Store) (id : EntityId) : UnitOfWork × Store :=
  u.track store id .managed

/-- Whether an entity of a store is new. -/
def isNew (store : Store) (id : EntityId) : Bool := (store.get? id).any (·.state = .new)

/-- Removes a tracked entity: a new one is given up, any other one is marked as deleted. -/
def remove (u : UnitOfWork) (store : Store) (id : EntityId) : UnitOfWork × Store :=
  if !u.tracked.contains id then (u, store)
  else if isNew store id then
    ({ u with tracked := u.tracked.erase id }, store.modify id Entity.unobserved)
  else (u, store.modify id (·.withState .deleted))

/-- The entities in a state after they were written, and those that are still tracked. -/
def afterFlush (store : Store) (tracked : List EntityId) : List EntityId × Store :=
  (tracked.filter fun id => (store.get? id).any (·.state ≠ .deleted),
    tracked.foldl (fun store id => store.modify id Entity.flushed) store)

/-- Accumulates what happened to the tracked entities and writes them. -/
def flush (u : UnitOfWork) (store : Store) : Except TransactionRequired (UnitOfWork × Store) :=
  (u.manager.beforeFlush store u.transaction u.tracked).map fun transaction =>
    let (tracked, store) := afterFlush store u.tracked
    ({ u with transaction := transaction, tracked := tracked }, store)

/-- What is warned of when a unit of work is flushed. -/
def flushWarnings (u : UnitOfWork) (store : Store) : List Warning :=
  u.manager.flushWarnings store u.tracked

/-- Ends a unit of work with the events of all that happened in it, in the order in which the entities
were first observed. -/
def commit (u : UnitOfWork) (store : Store) : WorkEnd (Except TransactionRequired (List Event)) :=
  match u.manager.collect store u.transaction u.tracked with
  | .error refusal => ⟨store, u.transaction.rollback, .error refusal⟩
  | .ok (transaction, records) =>
    let store := (afterFlush store u.tracked).2
    ⟨store, transaction.commit, .ok (records.map (·.toEvent store))⟩

/-- What is warned of when a unit of work is committed. -/
def commitWarnings (u : UnitOfWork) (store : Store) : List Warning :=
  u.manager.collectWarnings store u.transaction u.tracked

/-- Ends a unit of work without events; the change listeners of the tracked entities forget their
changes. -/
def rollback (u : UnitOfWork) (store : Store) : WorkEnd Unit :=
  ⟨u.tracked.foldl (fun store id => store.modify id Entity.clearChanges) store,
    u.transaction.rollback, ()⟩

/-- The records accumulated so far. -/
def accumulated (u : UnitOfWork) : List ChangeRecord := u.transaction.resources.records

end UnitOfWork

end Chronicle
