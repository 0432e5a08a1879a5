import Chronicle.Event.Registry
import Chronicle.Tracking.Config

/-!
# Publication

Publishing events one after another, and what happens when a subscriber fails.

## Implementation notes

The two policies differ in what follows a failure: either nothing more is published, or everything is
and the failures are gathered. The subscriptions may change from one event to the next.
-/

namespace Chronicle

/-- Why events could not be published. -/
inductive PublishError where
  /-- The publication ended at the first failure. -/
  | aborted (delivered total : Nat) (failure : DeliveryFailure)
  /-- Some of the events failed. -/
  | multiple (total : Nat) (failures : List DeliveryFailure)
deriving DecidableEq, Repr

/-- The message for an error. -/
def PublishError.message : PublishError → String
  | .aborted delivered total failure =>
    "Publication aborted after " ++ toString delivered ++ " of " ++ toString total ++ " events: " ++
      failure.message
  | .multiple total failures =>
    toString failures.length ++ " of " ++ toString total ++ " events failed to publish"

/-- The message for an error that ends more than the publication. -/
def PublishError.publishMessage (e : PublishError) : String := "Publish error: " ++ e.message

/-- What is warned of when an event fails. -/
inductive PublishWarning where
  /-- The number of events that were not delivered counts the one that failed. -/
  | aborted (event : Event) (undelivered : Nat) (failure : DeliveryFailure)
  | failed (event : Event) (failure : DeliveryFailure)

/-- The message for a warning. -/
def PublishWarning.message : PublishWarning → String
  | .aborted event undelivered failure =>
    "Publishing " ++ event.written ++ " failed, " ++ toString undelivered ++
      " events not delivered: " ++ failure.message
  | .failed event failure => "Publishing " ++ event.written ++ " failed: " ++ failure.message

/-- That an event reached a subscriber. -/
structure Receipt where
  subscriber : String
  event : Event
deriving DecidableEq

/-- The receipts of a delivery. -/
def Delivery.receipts (d : Delivery) (event : Event) : List Receipt := d.reached.map (⟨·, event⟩)

/-- What comes of the publication of events. -/
structure Publication where
  registry : Registry
  /-- Which events reached whom, in the order of the deliveries. -/
  receipts : List Receipt
  warnings : List PublishWarning
  /-- The number of published events. -/
  result : Except PublishError Nat

namespace Publication

/-- Publishes events up to the first failure. -/
def untilFailure (total : Nat) : Nat → Registry → List Event → Publication
  | _, registry, [] => ⟨registry, [], [], .ok total⟩
  | delivered, registry, event :: rest =>
    let delivery := Delivery.of event registry.subscriptions
    match delivery.failure with
    | some failure =>
      ⟨.after delivery, delivery.receipts event, [.aborted event (total - delivered) failure],
        .error (.aborted delivered total failure)⟩
    | none =>
      let publication := untilFailure total (delivered + 1) (.after delivery) rest
      { publication with receipts := delivery.receipts event ++ publication.receipts }

/-- Publishes all events, after some failures. -/
def throughout (total : Nat) : List DeliveryFailure → Registry → List Event → Publication
  | failures, registry, [] =>
    ⟨registry, [], [], if failures.isEmpty then .ok total else .error (.multiple total failures)⟩
  | failures, registry, event :: rest =>
    let delivery := Delivery.of event registry.subscriptions
    let publication := throughout total (failures ++ delivery.failure.toList) (.after delivery) rest
    { publication with
      receipts := delivery.receipts event ++ publication.receipts
      warnings := (delivery.failure.map (PublishWarning.failed event)).toList ++ publication.warnings }

end Publication

/-- Publishes events under a policy. -/
def Registry.publish (registry : Registry) (policy : PublishPolicy) (events : List Event) :
    Publication :=
  match policy with
  | .abortOnFirstError => .untilFailure events.length 0 registry events
  | .continueOnError => .throughout events.length [] registry events

end Chronicle
