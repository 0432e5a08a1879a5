import Chronicle.Event.Publication

/-!
# Who hears of published events

Which events reach which subscribers under the two policies, and what is reported.

## Implementation notes

As subscribers may bring in others, each event meets the registry as the events before left it: a
`Hearing` is an event with that registry. The same prefix is taken twice, among the subscribers of an
event and among the events of a publication: everything up to the first failure, which is included.
-/

namespace Chronicle

/-- The elements up to the first one with a property, which is included. -/
def throughFirst {α : Type} (p : α → Bool) (l : List α) : List α := l.take (l.findIdx p + 1)

section ThroughFirst

variable {α : Type} {p : α → Bool}

theorem throughFirst_cons_pos {a : α} (h : p a = true) (l : List α) :
    throughFirst p (a :: l) = [a] := by
  simp [throughFirst, List.findIdx_cons, h]

theorem throughFirst_cons_neg {a : α} (h : p a = false) (l : List α) :
    throughFirst p (a :: l) = a :: throughFirst p l := by
  simp [throughFirst, List.findIdx_cons, h]

/-- If no element has the property, these are all elements. -/
theorem throughFirst_eq_self {l : List α} (h : ∀ a ∈ l, p a = false) : throughFirst p l = l := by
  induction l with
  | nil => rfl
  | cons a rest ih =>
      rw [List.forall_mem_cons] at h
      rw [throughFirst_cons_neg h.1, ih h.2]

end ThroughFirst

/-! ## One event -/

/-- The failure of a subscriber on an event. -/
def Subscription.failure? (s : Subscription) (event : Event) : Option DeliveryFailure :=
  (s.subscriber.fails event).map (⟨s.subscriber.name, event.written, ·⟩)

/-- An event and the registry that it meets. -/
structure Hearing where
  registry : Registry
  event : Event

namespace Hearing

/-- Those who want to hear of the event, in the order of their subscriptions. -/
def matching (h : Hearing) : List Subscription :=
  h.registry.subscriptions.filter (·.accepts h.event)

/-- Those who hear of the event: no one after the first who fails. -/
def audience (h : Hearing) : List Subscription :=
  throughFirst (fun s => (s.failure? h.event).isSome) h.matching

/-- The failure of the first who fails. -/
def failure? (h : Hearing) : Option DeliveryFailure := h.matching.findSome? (·.failure? h.event)

/-- Whether someone fails. -/
def fails (h : Hearing) : Bool := h.failure?.isSome

/-- That the event reached its audience. -/
def receipts (h : Hearing) : List Receipt := h.audience.map (⟨·.subscriber.name, h.event⟩)

/-- What comes of the event. -/
def delivery (h : Hearing) : Delivery := Delivery.of h.event h.registry.subscriptions

end Hearing

/-- A delivery reaches those who accept the event up to the first who fails, and fails as this one
does. -/
theorem Delivery.of_eq (event : Event) (subscriptions : List Subscription) :
    (Delivery.of event subscriptions).reached =
        (throughFirst (fun s => (s.failure? event).isSome)
          (subscriptions.filter (·.accepts event))).map (·.subscriber.name) ∧
      (Delivery.of event subscriptions).failure =
        (subscriptions.filter (·.accepts event)).findSome? (·.failure? event) := by
  induction subscriptions with
  | nil => exact ⟨rfl, rfl⟩
  | cons s rest ih =>
      cases haccepts : s.accepts event with
      | true =>
          have hfilter : (s :: rest).filter (·.accepts event) =
              s :: rest.filter (·.accepts event) := List.filter_cons_of_pos haccepts
          rw [hfilter, List.findSome?_cons]
          cases hfails : s.subscriber.fails event with
          | some cause =>
              have hfailure : s.failure? event = some ⟨s.subscriber.name, event.written, cause⟩ := by
                rw [Subscription.failure?, hfails, Option.map_some]
              rw [throughFirst_cons_pos (by rw [hfailure, Option.isSome_some]), hfailure]
              simp [Delivery.of, haccepts, hfails]
          | none =>
              have hfailure : s.failure? event = none := by
                rw [Subscription.failure?, hfails, Option.map_none]
              rw [throughFirst_cons_neg (by rw [hfailure, Option.isSome_none]), hfailure]
              simpa [Delivery.of, haccepts, hfails] using ih
      | false =>
          have hfilter : (s :: rest).filter (·.accepts event) = rest.filter (·.accepts event) :=
            List.filter_cons_of_neg (Bool.eq_false_iff.mp haccepts)
          rw [hfilter]
          simpa [Delivery.of, haccepts] using ih

/-- A delivery to those who bring in no one leaves the subscriptions as they are. -/
theorem Delivery.of_closed {subscriptions : List Subscription}
    (h : ∀ s ∈ subscriptions, s.subscriber.brings = none) (event : Event) :
    (Delivery.of event subscriptions).subscriptions = subscriptions ∧
      (Delivery.of event subscriptions).brought = [] := by
  induction subscriptions with
  | nil => exact ⟨rfl, rfl⟩
  | cons s rest ih =>
      obtain ⟨hs, hrest⟩ := List.forall_mem_cons.mp h
      obtain ⟨entityName, name, fails, brings⟩ := s
      cases (show brings = none from hs)
      obtain ⟨hsubscriptions, hbrought⟩ := ih hrest
      cases haccepts : Subscription.accepts ⟨entityName, name, fails, none⟩ event with
      | true =>
          cases hfails : fails event with
          | some cause =>
              simp [Delivery.of, haccepts, hfails, Subscription.served, Subscription.brought]
          | none =>
              simp [Delivery.of, haccepts, hfails, Subscription.served, Subscription.brought,
                hsubscriptions, hbrought]
      | false => simp [Delivery.of, haccepts, hsubscriptions, hbrought]

namespace Hearing

variable {h : Hearing}

theorem receipts_delivery (h : Hearing) : h.delivery.receipts h.event = h.receipts := by
  rw [Delivery.receipts, delivery, (Delivery.of_eq _ _).1, List.map_map]
  rfl

theorem failure_delivery (h : Hearing) : h.delivery.failure = h.failure? :=
  (Delivery.of_eq _ _).2

/-- An event on which no one fails reaches everyone who wants to hear of it. -/
theorem audience_eq_matching (hnone : h.fails = false) : h.audience = h.matching := by
  apply throughFirst_eq_self
  intro s hs
  rw [fails, Option.isSome_eq_false_iff, Option.isNone_iff_eq_none, failure?,
    List.findSome?_eq_none_iff] at hnone
  rw [hnone s hs, Option.isSome_none]

end Hearing

/-! ## All events -/

/-- Events one after another, each with the registry that it meets. -/
def Registry.hearings : Registry → List Event → List Hearing
  | _, [] => []
  | registry, event :: rest =>
    ⟨registry, event⟩ :: hearings (.after (Delivery.of event registry.subscriptions)) rest

namespace Registry

theorem events_hearings (registry : Registry) (events : List Event) :
    (registry.hearings events).map Hearing.event = events := by
  induction events generalizing registry with
  | nil => rfl
  | cons event rest ih => rw [hearings, List.map_cons, ih]

theorem length_hearings (registry : Registry) (events : List Event) :
    (registry.hearings events).length = events.length := by
  rw [← List.length_map (f := Hearing.event), events_hearings]

/-- Whether no subscriber brings in another one. -/
def IsClosed (registry : Registry) : Prop :=
  ∀ s ∈ registry.subscriptions, s.subscriber.brings = none

/-- Where no one is brought in, all events meet the same registry. -/
theorem hearings_of_isClosed {registry : Registry} (h : registry.IsClosed) (events : List Event) :
    registry.hearings events = events.map (Hearing.mk registry) := by
  induction events with
  | nil => rfl
  | cons event rest ih =>
      obtain ⟨hsubscriptions, hbrought⟩ := Delivery.of_closed h event
      rw [hearings, Registry.after, hsubscriptions, hbrought, List.append_nil, ih, List.map_cons]

end Registry

namespace Publication

/-- A publication of events that ends at the first one that fails: the events until then reach all who
want to hear of them, and no one hears of the events afterwards. -/
structure UpToFailure (hearings : List Hearing) (p : Publication) : Prop where
  receipts_eq : p.receipts = (throughFirst Hearing.fails hearings).flatMap Hearing.receipts
  unhindered : ∀ h ∈ hearings.take (hearings.findIdx Hearing.fails), h.audience = h.matching
  result_eq : p.result =
    match hearings.findSome? Hearing.failure? with
    | none => .ok hearings.length
    | some failure =>
      .error (.aborted (hearings.findIdx Hearing.fails) hearings.length failure)
  ok_iff : p.result = .ok hearings.length ↔ ∀ h ∈ hearings, h.failure? = none

/-- A publication of all events: each is attempted, and all failures are reported in their order. -/
structure Throughout (hearings : List Hearing) (p : Publication) : Prop where
  receipts_eq : p.receipts = hearings.flatMap Hearing.receipts
  result_eq : p.result =
    match hearings.filterMap Hearing.failure? with
    | [] => .ok hearings.length
    | failures => .error (.multiple hearings.length failures)
  ok_iff : p.result = .ok hearings.length ↔ ∀ h ∈ hearings, h.failure? = none

variable {registry : Registry} {event : Event}

/-- A failure ends a publication up to the first failure. -/
theorem untilFailure_of_failure {failure : DeliveryFailure}
    (h : (Hearing.mk registry event).failure? = some failure) (total delivered : Nat)
    (events : List Event) :
    (untilFailure total delivered registry (event :: events)).receipts =
        (Hearing.mk registry event).receipts ∧
      (untilFailure total delivered registry (event :: events)).result =
        .error (.aborted delivered total failure) := by
  rw [← Hearing.failure_delivery, Hearing.delivery] at h
  rw [← Hearing.receipts_delivery, untilFailure, h]
  exact ⟨rfl, rfl⟩

/-- If no one fails on an event, the publication goes on. -/
theorem untilFailure_of_none (h : (Hearing.mk registry event).failure? = none)
    (total delivered : Nat) (events : List Event) :
    (untilFailure total delivered registry (event :: events)).receipts =
        (Hearing.mk registry event).receipts ++
          (untilFailure total (delivered + 1)
            (.after (Delivery.of event registry.subscriptions)) events).receipts ∧
      (untilFailure total delivered registry (event :: events)).result =
        (untilFailure total (delivered + 1)
          (.after (Delivery.of event registry.subscriptions)) events).result := by
  rw [← Hearing.failure_delivery, Hearing.delivery] at h
  rw [← Hearing.receipts_delivery, untilFailure, h]
  exact ⟨rfl, rfl⟩

/-- What is published up to the first failure, after some events that did not fail. -/
theorem untilFailure_eq (total delivered : Nat) (registry : Registry) (events : List Event) :
    (untilFailure total delivered registry events).receipts =
        (throughFirst Hearing.fails (registry.hearings events)).flatMap Hearing.receipts ∧
      (untilFailure total delivered registry events).result =
        match (registry.hearings events).findSome? Hearing.failure? with
        | none => .ok total
        | some failure =>
          .error (.aborted (delivered + (registry.hearings events).findIdx Hearing.fails) total
            failure) := by
  -- Both the count of events before and the registry differ from one event to the next.
  induction events generalizing delivered registry with
  | nil => exact ⟨rfl, rfl⟩
  | cons event rest ih =>
      rw [Registry.hearings, List.findSome?_cons, List.findIdx_cons]
      cases hfailure : (Hearing.mk registry event).failure? with
      | some failure =>
          have hfails : (Hearing.mk registry event).fails = true := by
            rw [Hearing.fails, hfailure, Option.isSome_some]
          obtain ⟨hreceipts, hresult⟩ := untilFailure_of_failure hfailure total delivered rest
          rw [throughFirst_cons_pos hfails, hfails, hreceipts, hresult]
          exact ⟨(List.flatMap_singleton _ _).symm, rfl⟩
      | none =>
          have hfails : (Hearing.mk registry event).fails = false := by
            rw [Hearing.fails, hfailure, Option.isSome_none]
          obtain ⟨hreceipts, hresult⟩ := untilFailure_of_none hfailure total delivered rest
          rw [throughFirst_cons_neg hfails, hfails, hreceipts, hresult, (ih _ _).1, (ih _ _).2,
            List.flatMap_cons, Nat.add_right_comm]
          exact ⟨rfl, rfl⟩

/-- What is published of all events, after some failures. -/
theorem throughout_eq (total : Nat) (failures : List DeliveryFailure) (registry : Registry)
    (events : List Event) :
    (throughout total failures registry events).receipts =
        (registry.hearings events).flatMap Hearing.receipts ∧
      (throughout total failures registry events).result =
        match failures ++ (registry.hearings events).filterMap Hearing.failure? with
        | [] => .ok total
        | all => .error (.multiple total all) := by
  induction events generalizing failures registry with
  | nil =>
      rw [Registry.hearings, List.filterMap_nil, List.append_nil]
      cases failures <;> exact ⟨rfl, rfl⟩
  | cons event rest ih =>
      have hfailure := Hearing.failure_delivery ⟨registry, event⟩
      have hreceipts := Hearing.receipts_delivery ⟨registry, event⟩
      rw [Hearing.delivery] at hfailure hreceipts
      have hfailures : (registry.hearings (event :: rest)).filterMap Hearing.failure? =
          (Hearing.mk registry event).failure?.toList ++
            ((Registry.after (Delivery.of event registry.subscriptions)).hearings rest).filterMap
              Hearing.failure? := by
        rw [Registry.hearings, List.filterMap_cons]
        cases (Hearing.mk registry event).failure? <;> rfl
      rw [hfailures, Registry.hearings, List.flatMap_cons, ← hreceipts, throughout, (ih _ _).1,
        (ih _ _).2, hfailure, List.append_assoc]
      exact ⟨rfl, rfl⟩

/-! ## Both policies -/

theorem upToFailure (registry : Registry) (events : List Event) :
    (registry.publish .abortOnFirstError events).UpToFailure (registry.hearings events) := by
  obtain ⟨hreceipts, hresult⟩ := untilFailure_eq events.length 0 registry events
  rw [Nat.zero_add, ← registry.length_hearings events] at hresult
  have hpublish : registry.publish .abortOnFirstError events =
      untilFailure (registry.hearings events).length 0 registry events := by
    rw [Registry.publish, registry.length_hearings]
  refine ⟨hreceipts, ?_, hpublish ▸ hresult, ?_⟩
  · intro h hh
    obtain ⟨i, hi, rfl⟩ := List.mem_take_iff_getElem.mp hh
    exact Hearing.audience_eq_matching
      (List.not_of_lt_findIdx (Nat.lt_of_lt_of_le hi (Nat.min_le_left _ _)))
  · rw [hpublish, hresult, ← List.findSome?_eq_none_iff]
    cases (registry.hearings events).findSome? Hearing.failure? <;> simp

theorem throughout_all (registry : Registry) (events : List Event) :
    (registry.publish .continueOnError events).Throughout (registry.hearings events) := by
  obtain ⟨hreceipts, hresult⟩ := throughout_eq events.length [] registry events
  rw [List.nil_append, ← registry.length_hearings events] at hresult
  have hpublish : registry.publish .continueOnError events =
      throughout (registry.hearings events).length [] registry events := by
    rw [Registry.publish, registry.length_hearings]
  refine ⟨hreceipts, hpublish ▸ hresult, ?_⟩
  rw [hpublish, hresult, ← List.filterMap_eq_nil_iff]
  cases (registry.hearings events).filterMap Hearing.failure? <;> simp

end Publication

/-- Publication delivers exactly the promised prefix. Every event meets the registry as the events before
left it, which is the same one unless a subscriber brings in another. -/
theorem publish_delivers_prefix (registry : Registry) (events : List Event) :
    (registry.hearings events).map Hearing.event = events ∧
      (registry.IsClosed → registry.hearings events = events.map (Hearing.mk registry)) ∧
      (registry.publish .abortOnFirstError events).UpToFailure (registry.hearings events) ∧
      (registry.publish .continueOnError events).Throughout (registry.hearings events) :=
  ⟨registry.events_hearings events, fun h => Registry.hearings_of_isClosed h events,
    Publication.upToFailure registry events, Publication.throughout_all registry events⟩

/-- Two subscribers, of whom the second one hears of people only and fails on their deletion. -/
def mirrored : Registry where
  subscriptions :=
    [⟨none, { name := "audit" }⟩,
      ⟨some "Person",
        { name := "mirror", fails := fun e => if e.type = .deleted then some "gone" else none }⟩]

/-- The deletion of a person between the creations of two addresses. -/
def departure : List Event :=
  [⟨1, ⟨"Address", none, .created, .empty⟩⟩, ⟨0, ⟨"Person", none, .deleted, .empty⟩⟩,
    ⟨2, ⟨"Address", none, .created, .empty⟩⟩]

theorem mirrored_isClosed : mirrored.IsClosed := by
  simp [Registry.IsClosed, mirrored]

/-- The second event fails when it has reached both subscribers. -/
theorem departure_aborted :
    mirrored.IsClosed ∧
      mirrored.hearings departure = departure.map (Hearing.mk mirrored) ∧
      (mirrored.publish .abortOnFirstError departure).receipts.map Receipt.subscriber =
        ["audit", "audit", "mirror"] := by
  obtain ⟨-, hclosed, haborted, -⟩ := publish_delivers_prefix mirrored departure
  refine ⟨mirrored_isClosed, hclosed mirrored_isClosed, ?_⟩
  rw [haborted.receipts_eq]
  decide +kernel

end Chronicle
