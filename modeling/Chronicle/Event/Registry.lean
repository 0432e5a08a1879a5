import Chronicle.Event.Event

/-!
# Subscriptions

Who wants to hear of events, and the delivery of one event to all of them.

## Implementation notes

An event is delivered in the order of the subscriptions and no further than to the first subscriber that
fails. A subscriber may bring in another one, which hears the events after the one that is being
delivered.
-/

namespace Chronicle

/-- A subscriber. -/
structure Subscriber where
  name : String
  /-- Why the subscriber fails on an event, if it does. -/
  fails : Event → Option String := fun _ => none
  /-- The name of a subscriber to all events that this one brings in on its first event. -/
  brings : Option String := none

/-- A subscription, to the events of all entities or to those of one name. -/
structure Subscription where
  entityName : Option String
  subscriber : Subscriber

/-- A subscriber's failure on an event. -/
structure DeliveryFailure where
  subscriber : String
  /-- The plain text of the event. -/
  event : String
  cause : String
deriving DecidableEq, Repr

/-- The message for a failure. -/
def DeliveryFailure.message (f : DeliveryFailure) : String :=
  "Listener '" ++ f.subscriber ++ "' failed on " ++ f.event ++ ": " ++ f.cause

namespace Subscription

/-- Whether an event is of the entities of a subscription. -/
def accepts (s : Subscription) (event : Event) : Bool :=
  match s.entityName with
  | some name => name == event.name
  | none => true

/-- A subscription after it was given an event. -/
def served (s : Subscription) : Subscription :=
  { s with subscriber := { s.subscriber with brings := none } }

/-- The subscription of the subscriber that is brought in on an event. -/
def brought (s : Subscription) : List Subscription :=
  match s.subscriber.brings with
  | some name => [⟨none, { name := name }⟩]
  | none => []

end Subscription

/-- What comes of the delivery of an event. -/
structure Delivery where
  /-- The subscriptions to which the event could be delivered, afterwards. -/
  subscriptions : List Subscription
  /-- The subscriptions that were brought in. -/
  brought : List Subscription
  /-- The names of the subscribers that the event reached, in the order of the delivery. -/
  reached : List String
  failure : Option DeliveryFailure

/-- The delivery of an event to subscriptions. -/
def Delivery.of (event : Event) : List Subscription → Delivery
  | [] => ⟨[], [], [], none⟩
  | s :: rest =>
    if s.accepts event then
      match s.subscriber.fails event with
      | some cause =>
        ⟨s.served :: rest, s.brought, [s.subscriber.name],
          some ⟨s.subscriber.name, event.written, cause⟩⟩
      | none =>
        let delivery := Delivery.of event rest
        ⟨s.served :: delivery.subscriptions, s.brought ++ delivery.brought,
          s.subscriber.name :: delivery.reached, delivery.failure⟩
    else
      let delivery := Delivery.of event rest
      { delivery with subscriptions := s :: delivery.subscriptions }

/-- All subscriptions, in the order in which they were made. -/
structure Registry where
  subscriptions : List Subscription := []

namespace Registry

/-- The registry with another subscription. -/
def subscribe (r : Registry) (s : Subscription) : Registry := ⟨r.subscriptions ++ [s]⟩

/-- The number of subscriptions. -/
def size (r : Registry) : Nat := r.subscriptions.length

/-- Whether nobody is subscribed. -/
def isEmpty (r : Registry) : Bool := r.subscriptions.isEmpty

/-- The registry after an event was delivered. -/
def after (d : Delivery) : Registry := ⟨d.subscriptions ++ d.brought⟩

end Registry

end Chronicle
