import Chronicle.Transaction.Basic

/-!
# Actions on resources

Synchronizations that are given as lists of actions on the resources of a transaction.
-/

namespace Chronicle

/-- What is done with the resource of a kind. -/
inductive ResourceVerb where
  | bind
  | get
  /-- A value is added to a bound resource. -/
  | add
  | getOrBind
  | unbind
  | contains
deriving DecidableEq, Repr

/-- What an action answers. -/
inductive ResourceAnswer where
  | number (value : Option Int64)
  | truth (value : Bool)
deriving DecidableEq, Repr

/-- An action on the resource of a kind. -/
structure ResourceAction where
  verb : ResourceVerb
  kind : String
  value : Int64 := 0
deriving DecidableEq, Repr

namespace ResourceAction

/-- What an action answers, and the resources after it. -/
def run (action : ResourceAction) (r : Resources) : ResourceAnswer × Resources :=
  let present := r.get? action.kind
  match action.verb with
  | .bind => (.number present, r.bind action.kind action.value)
  | .get => (.number present, r)
  | .add =>
    match present with
    | some value => (.number (some (value + action.value)), r.bind action.kind (value + action.value))
    | none => (.number none, r)
  | .getOrBind =>
    let (value, r) := r.getOrBind action.kind action.value
    (.number (some value), r)
  | .unbind => (.number present, r.unbind action.kind)
  | .contains => (.truth present.isSome, r)

/-- The answers of actions, each with the resources after it. -/
def trace : List ResourceAction → Resources → List (ResourceAnswer × Resources)
  | [], _ => []
  | action :: rest, r => action.run r :: trace rest (action.run r).2

/-- The resources after actions. -/
def runAll (actions : List ResourceAction) (r : Resources) : Resources :=
  actions.foldl (fun r action => (action.run r).2) r

end ResourceAction

/-- The actions of a synchronization; those before a commit may be missing. -/
structure ActionPlan where
  beforeCommit : Option (List ResourceAction)
  afterCompletion : List ResourceAction

namespace ActionPlan

/-- The actions of a phase. -/
def inPhase (plan : ActionPlan) : Phase → Option (List ResourceAction)
  | .beforeCommit => plan.beforeCommit
  | .afterCompletion _ => some plan.afterCompletion

/-- The synchronization that carries out a plan. -/
def synchronization (plan : ActionPlan) : Synchronization where
  beforeCommit := fun _ => ResourceAction.runAll (plan.beforeCommit.getD [])
  afterCompletion := fun _ _ => ResourceAction.runAll plan.afterCompletion

end ActionPlan

end Chronicle
