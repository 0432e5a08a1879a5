import Chronicle.Transaction.Resources

/-!
# Transactions

A transaction carries resources and what is called when it ends. A context without synchronization
carries resources only.

## Implementation notes

A transaction is used up by its end, so that what is called can only be registered before. Every call
sees the resources as the one before it left them, and knows of all calls before it: what those who are
called remember, each on its own or together, is a function of these. A completion keeps all calls with
what they saw.

The owner of a transaction commits it, rolls it back or just gives it up. What is left of a transaction
that was committed or rolled back is given up as well, so that the owner has to know whether it was
completed.
-/

namespace Chronicle

/-- How a transaction ended. -/
inductive TransactionStatus where
  | committed
  | rolledBack
deriving DecidableEq, Repr

/-- The name of a status. -/
def TransactionStatus.name : TransactionStatus → String
  | .committed => "Committed"
  | .rolledBack => "RolledBack"

/-- The moment of a call. -/
inductive Phase where
  | beforeCommit
  | afterCompletion (status : TransactionStatus)
deriving DecidableEq, Repr

/-- The name of a phase. -/
def Phase.name : Phase → String
  | .beforeCommit => "before_commit"
  | .afterCompletion status => "after_completion:" ++ status.name

/-- A call at the end of a transaction. -/
structure SynchronizationCall where
  /-- The place of the synchronization among those that were registered. -/
  place : Nat
  phase : Phase
  /-- The resources before the call. -/
  seen : Resources

/-- What is called when a transaction ends, given the calls that were made before. -/
structure Synchronization where
  /-- Called before a commit only. -/
  beforeCommit : List SynchronizationCall → Resources → Resources := fun _ => id
  /-- Called after a commit or a rollback. -/
  afterCompletion : List SynchronizationCall → TransactionStatus → Resources → Resources

namespace Synchronization

/-- Releases the accumulator when a transaction ends. -/
def releasing : Synchronization where
  afterCompletion := fun _ _ resources => resources.release

/-- What a synchronization does in a phase. -/
def reaction (s : Synchronization) (earlier : List SynchronizationCall) :
    Phase → Resources → Resources
  | .beforeCommit => s.beforeCommit earlier
  | .afterCompletion status => s.afterCompletion earlier status

end Synchronization

/-- How far the end of a transaction has come. -/
structure Progress where
  resources : Resources
  /-- The calls so far. -/
  calls : List SynchronizationCall := []

namespace Progress

/-- Calls the synchronization at a place. -/
def call (p : Progress) (phase : Phase) (place : Nat) (s : Synchronization) : Progress where
  resources := s.reaction p.calls phase p.resources
  calls := p.calls ++ [⟨place, phase, p.resources⟩]

/-- Calls all synchronizations from a place on. -/
def callFrom (phase : Phase) : Nat → List Synchronization → Progress → Progress
  | _, [], p => p
  | place, s :: rest, p => callFrom phase (place + 1) rest (p.call phase place s)

end Progress

/-- What something else is bound to while it lasts. -/
structure Transaction where
  resources : Resources := {}
  /-- What is registered; nothing can be without synchronization. -/
  synchronizations : Option (List Synchronization)

/-- The end of a transaction. -/
structure Completion where
  status : TransactionStatus
  /-- The number of resources that were still bound after all calls. -/
  unreleased : Nat
  /-- The calls in their order. -/
  calls : List SynchronizationCall
  /-- What is left of the transaction. -/
  left : Transaction

namespace Transaction

/-- A transaction with synchronization. -/
def start : Transaction := ⟨{}, some []⟩

/-- A context without synchronization. -/
def nonTransactional : Transaction := ⟨{}, none⟩

/-- Whether something can be registered. -/
def isSynchronizationActive (t : Transaction) : Bool := t.synchronizations.isSome

/-- The transaction with a synchronization registered; `none` without synchronization. -/
def register? (t : Transaction) (s : Synchronization) : Option Transaction :=
  t.synchronizations.map fun registered => { t with synchronizations := some (registered ++ [s]) }

/-- All that is registered. -/
def registered (t : Transaction) : List Synchronization := t.synchronizations.getD []

/-- The number of registered synchronizations. -/
def synchronizationCount (t : Transaction) : Nat := t.registered.length

/-- Calls all that is registered: before a commit, and after any end. -/
def callAll (t : Transaction) (status : TransactionStatus) : Progress :=
  let prepared :=
    match status with
    | .committed => Progress.callFrom .beforeCommit 0 t.registered ⟨t.resources, []⟩
    | .rolledBack => ⟨t.resources, []⟩
  Progress.callFrom (.afterCompletion status) 0 t.registered prepared

/-- Ends a transaction: what is still bound after all calls is released. -/
def complete (t : Transaction) (status : TransactionStatus) : Completion :=
  let last := t.callAll status
  ⟨status, last.resources.size, last.calls, ⟨last.resources.clear, none⟩⟩

/-- Commits a transaction. -/
def commit (t : Transaction) : Completion := t.complete .committed

/-- Rolls a transaction back. -/
def rollback (t : Transaction) : Completion := t.complete .rolledBack

/-- The dump of a transaction, given the text of its identifier. -/
def dump (t : Transaction) (id : String) : String :=
  "TransactionContext \x7b id: " ++ id ++ ", resources: " ++ t.resources.dump ++
    ", synchronizations: " ++ toString t.synchronizationCount ++ ", completed: false \x7d"

end Transaction

/-- A transaction in the hands of its owner. -/
structure OwnedTransaction where
  transaction : Transaction
  completed : Bool := false
  /-- The completions so far. -/
  completions : List Completion := []

namespace OwnedTransaction

/-- The transaction completed. -/
def complete (o : OwnedTransaction) (status : TransactionStatus) : OwnedTransaction :=
  let completion := o.transaction.complete status
  ⟨completion.left, true, o.completions ++ [completion]⟩

/-- The transaction given up: it is rolled back unless it was completed. -/
def giveUp (o : OwnedTransaction) : OwnedTransaction :=
  if o.completed then o else o.complete .rolledBack

/-- All calls so far. -/
def calls (o : OwnedTransaction) : List SynchronizationCall := o.completions.flatMap Completion.calls

end OwnedTransaction

/-- How the owner of a transaction ends it. -/
inductive Ending where
  | commit
  | rollback
  /-- The transaction is given up. -/
  | drop
deriving DecidableEq, Repr

/-- The status of a transaction that is ended in a way. -/
def Ending.status : Ending → TransactionStatus
  | .commit => .committed
  | .rollback => .rolledBack
  | .drop => .rolledBack

/-- The transaction ended and given up. -/
def Transaction.finish (t : Transaction) : Ending → OwnedTransaction
  | .commit => (OwnedTransaction.complete ⟨t, false, []⟩ .committed).giveUp
  | .rollback => (OwnedTransaction.complete ⟨t, false, []⟩ .rolledBack).giveUp
  | .drop => OwnedTransaction.giveUp ⟨t, false, []⟩

end Chronicle
