import Chronicle.Proofs.Tracking.Accumulation
import Chronicle.Tracking.UnitOfWork

/-!
# Sessions

A unit of work together with the shared entities, and all that a program can do with the two before
the end: moves through the life cycle, calls of setters, other changes of an entity, and flushes.

## Implementation notes

A step that is refused changes nothing. Whatever else is done to an entity, such as the installation of
another change listener, writing by name, or a flush by another unit of work, is an alteration by a
function. What is observed at a flush, and how the record of an entity takes it, is said once for all
runs by `Session.observed?` and `Session.record?_step`.
-/

namespace Chronicle

/-- What a program can do before the end of a unit of work. -/
inductive Step where
  | persist (id : EntityId)
  | attach (id : EntityId)
  | remove (id : EntityId)
  /-- Calls a setter of an entity. -/
  | call (id : EntityId) (setter : Setter) (value : Value)
  /-- Does anything else to an entity. -/
  | alter (id : EntityId) (change : Entity → Entity)
  | flush

/-- A unit of work and the shared entities. -/
structure Session where
  work : UnitOfWork
  store : Store

namespace Session

/-- A session in which nothing was done yet, in a transaction of its own. -/
def start (entities : List Entity) : Session := ⟨⟨{}, .start, []⟩, ⟨entities⟩⟩

/-- A session of the outcome of an operation. -/
def ofPair (outcome : UnitOfWork × Store) : Session := ⟨outcome.1, outcome.2⟩

/-- The session after a step. -/
def step (s : Session) : Step → Session
  | .persist id => ofPair (s.work.persist s.store id)
  | .attach id => ofPair (s.work.attach s.store id)
  | .remove id => ofPair (s.work.remove s.store id)
  | .call id setter value => { s with store := s.store.modify id fun e => (e.call setter value).1 }
  | .alter id change => { s with store := s.store.modify id change }
  | .flush =>
    match s.work.flush s.store with
    | .ok outcome => ofPair outcome
    | .error _ => s

/-- The session after steps. -/
def run (s : Session) (steps : List Step) : Session := steps.foldl step s

@[simp] theorem run_nil (s : Session) : s.run [] = s := rfl

@[simp] theorem run_cons (s : Session) (step : Step) (steps : List Step) :
    s.run (step :: steps) = (s.step step).run steps := rfl

theorem run_append (s : Session) (steps later : List Step) :
    s.run (steps ++ later) = (s.run steps).run later := List.foldl_append

/-- Whether a flush of the session observes entities. -/
def observes (s : Session) : Bool :=
  s.work.manager.config.enabled && !s.work.manager.refuses s.work.transaction

/-- The records that were accumulated and those of what a flush would observe now. -/
def pending (s : Session) : List ChangeRecord :=
  ChangeRecord.absorbAll s.work.accumulated (s.work.manager.records s.store s.work.tracked)

/-- The accumulated record of an entity. -/
def record? (s : Session) (id : EntityId) : Option ChangeRecord :=
  ChangeRecord.of? id s.work.accumulated

/-- What a flush would observe about an entity now. -/
def observed? (s : Session) (id : EntityId) : Option ChangeRecord :=
  if s.observes ∧ id ∈ s.work.tracked then
    ((s.store.get? id).bind (s.work.manager.observation? id)).map Observation.record
  else none

/-- What a step observes about an entity. -/
def observedBy? (s : Session) (id : EntityId) : Step → Option ChangeRecord
  | .flush => s.observed? id
  | _ => none

/-- What steps observe about an entity one after another. -/
def observedIn (id : EntityId) : Session → List Step → List ChangeRecord
  | _, [] => []
  | s, step :: steps => (s.observedBy? id step).toList ++ observedIn id (s.step step) steps

end Session

variable {w : World} {id : EntityId}

/-! ## Soundness -/

/-- Whether a step writes sound values only. -/
def Step.Sound (w : World) : Step → Prop
  | .call id setter value => setter.Sound w id ∧ value.Sound w ∧ value.Fits setter.argument
  | .alter id change => ∀ e : Entity, e.Sound w id → (change e).Sound w id
  | _ => True

/-- Whether all entities and records of a session are sound, and nothing is tracked or accumulated
twice. -/
structure Session.Sound (w : World) (s : Session) : Prop where
  entities : ∀ id e, s.store.get? id = some e → e.Sound w id
  tracked : s.work.tracked.Nodup
  records : ∀ r ∈ s.work.accumulated, r.Sound
  distinct : (s.work.accumulated.map ChangeRecord.entity).Nodup

/-- Whether a change is one, by the comparison of values. -/
def PropertyChange.IsChange (change : PropertyChange) : Prop := change.old.same change.new = false

instance (change : PropertyChange) : Decidable change.IsChange :=
  inferInstanceAs (Decidable (_ = false))

/-- What a call of a setter announces. -/
def Setter.change (setter : Setter) (o : Object) (value : Value) : PropertyChange :=
  ⟨setter.attr, setter.getter o, setter.getter (setter.body o value)⟩

namespace Store

theorem get?_modify (s : Store) (id : EntityId) (f : Entity → Entity) (other : EntityId) :
    (s.modify id f).get? other = if id = other then (s.get? other).map f else s.get? other := by
  change (s.entities.modify id f)[other]? = _
  rw [List.getElem?_modify]
  by_cases h : id = other
  · simp [h, get?]
  · simp [h, get?]

/-- Changing several entities in the same way changes each of them once. -/
theorem get?_foldl_modify (s : Store) (f : Entity → Entity) {ids : List EntityId} (h : ids.Nodup)
    (id : EntityId) :
    (ids.foldl (fun s id => s.modify id f) s).get? id =
      if id ∈ ids then (s.get? id).map f else s.get? id := by
  induction ids generalizing s with
  | nil => rfl
  | cons first rest ih =>
      obtain ⟨hfirst, hrest⟩ := List.nodup_cons.mp h
      rw [List.foldl_cons, ih _ hrest, get?_modify]
      by_cases hid : first = id
      · subst hid
        simp [hfirst]
      · simp [hid, Ne.symm hid]

end Store

namespace Entity

theorem Sound.withListener {e : Entity} (h : e.Sound w id) {state : LifecycleState}
    {names : List String} {listener : Option ChangeListener}
    (hlistener : ∀ l ∈ listener, l.Sound w) :
    Entity.Sound w id ⟨e.object, state, names, listener⟩ :=
  ⟨h.object, hlistener⟩

theorem Sound.withState {e : Entity} (h : e.Sound w id) (state : LifecycleState) :
    (e.withState state).Sound w id :=
  h.withListener h.listener

theorem Sound.observed {e : Entity} (h : e.Sound w id) : e.observed.Sound w id := by
  unfold Entity.observed
  split_ifs
  · apply h.withListener
    intro l hl
    cases hl
    exact trivial
  · exact h

theorem Sound.unobserved {e : Entity} (h : e.Sound w id) : e.unobserved.Sound w id :=
  h.withListener (by simp)

theorem Sound.clearChanges {e : Entity} (h : e.Sound w id) : e.clearChanges.Sound w id := by
  apply h.withListener
  intro l hl
  obtain ⟨known, hknown, rfl⟩ := Option.map_eq_some_iff.mp hl
  have := h.listener known hknown
  cases known with
  | recording changes => exact trivial
  | fixed source => exact this

theorem Sound.flushed {e : Entity} (h : e.Sound w id) : e.flushed.Sound w id := by
  unfold Entity.flushed
  cases e.state with
  | new => exact (h.withState .managed).clearChanges
  | managed => exact h.clearChanges
  | deleted => exact h.unobserved

/-- A setter that notifies announces what its getter reads before and after the body. -/
theorem call_of_notifies {setter : Setter} (h : setter.notifies = true) (e : Entity) (value : Value) :
    e.call setter value =
      { e with object := setter.body e.object value }.announce (setter.change e.object value) :=
  if_pos h

theorem call_of_silent {setter : Setter} (h : ¬ setter.notifies = true) (e : Entity) (value : Value) :
    e.call setter value = ({ e with object := setter.body e.object value }, []) :=
  if_neg h

/-- A call runs the body of the setter and tells the change listener of a change that is one. -/
theorem call_fst (e : Entity) (setter : Setter) (value : Value) :
    (e.call setter value).1 =
      { e with
        object := setter.body e.object value
        changeListener :=
          if setter.notifies ∧ (setter.change e.object value).IsChange then
            e.changeListener.map (·.notified (setter.change e.object value))
          else e.changeListener } := by
  unfold PropertyChange.IsChange
  by_cases hnotifies : setter.notifies = true
  · rw [call_of_notifies hnotifies, announce]
    by_cases hsame : (setter.change e.object value).old.same (setter.change e.object value).new = true
    · simp [hnotifies, hsame]
    · simp [hnotifies, hsame]
  · rw [call_of_silent hnotifies]
    simp [hnotifies]

theorem Sound.notified {changeListener : ChangeListener} {change : PropertyChange}
    (h : changeListener.Sound w) (hname : Dotless change.property) (hold : change.old.Sound w) :
    (changeListener.notified change).Sound w := by
  cases changeListener with
  | recording changes => exact ChangeSet.Sound.record h hname hold change.new
  | fixed source => exact h

/-- A setter keeps an entity and what its change listener remembers sound. -/
theorem Sound.call {e : Entity} (h : e.Sound w id) {setter : Setter} {value : Value}
    (hs : setter.Sound w id) (hv : value.Sound w) (hfits : value.Fits setter.argument) :
    (e.call setter value).1.Sound w id := by
  have hobject := hs.body e.object value h.object hv hfits
  rw [call_fst]
  refine ⟨hobject, ?_⟩
  intro l hl
  dsimp only at hl
  split_ifs at hl
  · obtain ⟨known, hknown, rfl⟩ := Option.map_eq_some_iff.mp hl
    exact Sound.notified (h.listener known hknown) ((w.wellNamed_entity id).2 setter.attr hs.attr)
      (hs.getter e.object h.object)
  · exact h.listener l hl

end Entity

/-! ## What is tracked -/

namespace UnitOfWork

theorem mem_tracked_track (u : UnitOfWork) (store : Store) (other : EntityId)
    (state : LifecycleState) (id : EntityId) :
    id ∈ (u.track store other state).1.tracked ↔ id ∈ u.tracked ∨ id = other := by
  change id ∈ (if u.tracked.contains other then u.tracked else u.tracked ++ [other]) ↔ _
  split_ifs with h
  · rw [List.contains_iff_mem] at h
    exact ⟨Or.inl, fun hid => hid.elim (fun hid => hid) fun hid => hid ▸ h⟩
  · rw [List.mem_append, List.mem_singleton]

theorem nodup_track {u : UnitOfWork} (h : u.tracked.Nodup) (store : Store) (id : EntityId)
    (state : LifecycleState) : (u.track store id state).1.tracked.Nodup := by
  change (if u.tracked.contains id then u.tracked else u.tracked ++ [id]).Nodup
  split_ifs with hmem
  · exact h
  · rw [List.contains_iff_mem] at hmem
    exact List.nodup_append.mpr ⟨h, List.nodup_singleton id, fun a ha b hb hab =>
      hmem (List.mem_singleton.mp hb ▸ hab ▸ ha)⟩

/-! ## Flushes and rollbacks -/

/-- A flush writes every tracked entity once. -/
theorem get?_afterFlush (store : Store) {tracked : List EntityId} (h : tracked.Nodup)
    (id : EntityId) :
    (afterFlush store tracked).2.get? id =
      if id ∈ tracked then (store.get? id).map Entity.flushed else store.get? id :=
  Store.get?_foldl_modify store Entity.flushed h id

/-- A rollback clears the change listener of every tracked entity once. -/
theorem get?_rollback {u : UnitOfWork} (store : Store) (h : u.tracked.Nodup) (id : EntityId) :
    (u.rollback store).store.get? id =
      if id ∈ u.tracked then (store.get? id).map Entity.clearChanges else store.get? id :=
  Store.get?_foldl_modify store Entity.clearChanges h id

end UnitOfWork

namespace Manager

theorem records_accumulator (t : Transaction) : (accumulator t).1.records = t.resources.records := by
  unfold accumulator Resources.records
  cases t.resources.accumulator with
  | none => cases t.synchronizations <;> simp
  | some present =>
      cases t.synchronizations with
      | none => simp
      | some registered => by_cases h : present.synchronized = true <;> simp [h]

theorem isSynchronizationActive_accumulator (t : Transaction) :
    (accumulator t).2.isSynchronizationActive = t.isSynchronizationActive := by
  obtain ⟨resources, _ | registered⟩ := t
  · rfl
  · unfold accumulator Transaction.isSynchronizationActive
    by_cases h : (resources.accumulator.getD {}).synchronized = true <;> simp [h]

end Manager

namespace Session

theorem observes_iff (s : Session) :
    s.observes = true ↔
      s.work.manager.config.enabled = true ∧ s.work.manager.refuses s.work.transaction = false := by
  simp [observes]

/-- The session after a flush in a transaction that may have changed. -/
def written (s : Session) (t : Transaction) : Session :=
  ⟨{ s.work with
      transaction := t
      tracked := (UnitOfWork.afterFlush s.store s.work.tracked).1 },
    (UnitOfWork.afterFlush s.store s.work.tracked).2⟩

/-- A flush is refused, or it writes the tracked entities and accumulates what it observes. -/
theorem step_flush (s : Session) :
    (s.observes = false ∧ s.step .flush = s) ∨
      ∃ t : Transaction, s.step .flush = s.written t ∧
        t.resources.records = (if s.observes then s.pending else s.work.accumulated) ∧
        t.isSynchronizationActive = s.work.transaction.isSynchronizationActive := by
  unfold step UnitOfWork.flush Manager.beforeFlush observes
  by_cases henabled : s.work.manager.config.enabled = true
  · by_cases hrefuses : s.work.manager.refuses s.work.transaction = true
    · exact Or.inl (by simp [henabled, hrefuses, Except.map])
    · refine Or.inr ⟨_, by simp only [henabled, hrefuses]; rfl, ?_, ?_⟩
      · simp only [henabled, hrefuses, pending, UnitOfWork.accumulated]
        rw [← Manager.records_accumulator s.work.transaction]
        rfl
      · exact Manager.isSynchronizationActive_accumulator s.work.transaction
  · refine Or.inr ⟨s.work.transaction, ?_, ?_, rfl⟩
    · simp only [henabled, Except.map]
      rfl
    · simp [henabled, UnitOfWork.accumulated]

@[simp] theorem manager_step (s : Session) (step : Step) :
    (s.step step).work.manager = s.work.manager := by
  cases step with
  | flush =>
      rcases s.step_flush with ⟨-, h⟩ | ⟨t, h, -⟩
      · rw [h]
      · rw [h]
        rfl
  | remove id =>
      simp only [Session.step, UnitOfWork.remove]
      split_ifs <;> rfl
  | _ => rfl

theorem step_move (s : Session) {step : Step} (h : step ≠ .flush) :
    (s.step step).work.transaction = s.work.transaction := by
  cases step with
  | flush => exact absurd rfl h
  | remove id =>
      simp only [Session.step, UnitOfWork.remove]
      split_ifs <;> rfl
  | _ => rfl

@[simp] theorem observes_step (s : Session) (step : Step) : (s.step step).observes = s.observes := by
  have hactive : (s.step step).work.transaction.isSynchronizationActive =
      s.work.transaction.isSynchronizationActive := by
    by_cases hstep : step = .flush
    · subst hstep
      rcases s.step_flush with ⟨-, h⟩ | ⟨t, h, -, ht⟩
      · rw [h]
      · rw [h]
        exact ht
    · rw [s.step_move hstep]
  unfold observes Manager.refuses
  rw [manager_step, hactive]

theorem accumulated_flush (s : Session) :
    (s.step .flush).work.accumulated = if s.observes then s.pending else s.work.accumulated := by
  rcases s.step_flush with ⟨hobserves, h⟩ | ⟨t, h, ht, -⟩
  · rw [h, hobserves]
    rfl
  · rw [h]
    exact ht

theorem accumulated_step (s : Session) {step : Step} (h : step ≠ .flush) :
    (s.step step).work.accumulated = s.work.accumulated := by
  unfold UnitOfWork.accumulated
  rw [s.step_move h]

/-- A commit gives the events of the records that one more flush would leave. -/
theorem commit_result {s : Session} (hobserves : s.observes = true) :
    (s.work.commit s.store).result =
      .ok ((s.step .flush).work.accumulated.map
        (·.toEvent (UnitOfWork.afterFlush s.store s.work.tracked).2)) := by
  obtain ⟨henabled, hrefuses⟩ := s.observes_iff.mp hobserves
  rw [accumulated_flush, if_pos hobserves, pending, UnitOfWork.accumulated,
    ← Manager.records_accumulator]
  unfold UnitOfWork.commit Manager.collect
  simp only [henabled, hrefuses, Bool.not_true, Bool.false_eq_true, if_false]

/-! ## The record of one entity -/

theorem of?_pending {s : Session} (h : s.work.tracked.Nodup) (hobserves : s.observes = true)
    (id : EntityId) :
    ChangeRecord.of? id s.pending =
      (s.observed? id).elim (s.record? id) fun later =>
        some (ChangeRecord.update (s.record? id) later) := by
  unfold pending
  rw [ChangeRecord.of?_absorbAll, Manager.of?_records _ _ h]
  · unfold observed? record?
    by_cases hid : id ∈ s.work.tracked <;> simp [hid, hobserves]
  · exact h.sublist (Manager.records_entities _ _ _)

/-- A step merges what it observes about an entity into the record of the entity. -/
theorem record?_step {s : Session} (h : s.work.tracked.Nodup) (id : EntityId) (step : Step) :
    (s.step step).record? id =
      (s.observedBy? id step).elim (s.record? id) fun later =>
        some (ChangeRecord.update (s.record? id) later) := by
  by_cases hstep : step = .flush
  · subst hstep
    unfold record?
    rw [accumulated_flush]
    by_cases hobserves : s.observes = true
    · rw [if_pos hobserves]
      exact of?_pending h hobserves id
    · rw [if_neg hobserves]
      have hnone : s.observedBy? id .flush = none := if_neg fun hand => hobserves hand.1
      rw [hnone]
      rfl
  · have hnone : s.observedBy? id step = none := by
      cases step with
      | flush => exact absurd rfl hstep
      | _ => rfl
    rw [hnone]
    unfold record?
    rw [s.accumulated_step hstep]
    rfl

/-- Nothing is ever tracked twice. -/
theorem nodup_tracked_step {s : Session} (h : s.work.tracked.Nodup) (step : Step) :
    (s.step step).work.tracked.Nodup := by
  cases step with
  | persist id => exact UnitOfWork.nodup_track h s.store id .new
  | attach id => exact UnitOfWork.nodup_track h s.store id .managed
  | remove id =>
      simp only [Session.step, UnitOfWork.remove]
      split_ifs
      · exact h
      · exact h.erase id
      · exact h
  | call id setter value => exact h
  | alter id change => exact h
  | flush =>
      rcases s.step_flush with ⟨-, hstep⟩ | ⟨t, hstep, -⟩
      · rwa [hstep]
      · rw [hstep]
        exact h.filter _

theorem nodup_tracked_run {s : Session} (h : s.work.tracked.Nodup) (steps : List Step) :
    (s.run steps).work.tracked.Nodup := by
  induction steps generalizing s with
  | nil => exact h
  | cons first rest ih => exact ih (nodup_tracked_step h first)

/-! ## Soundness of runs -/

theorem sound_start {entities : List Entity}
    (h : ∀ (id : EntityId) (e : Entity), entities[id]? = some e → e.Sound w id) :
    (start entities).Sound w :=
  ⟨h, List.nodup_nil, by simp [start, UnitOfWork.accumulated, Resources.records, Transaction.start],
    List.nodup_nil⟩

theorem Sound.modify {s : Session} (h : s.Sound w) (id : EntityId) {f : Entity → Entity}
    (hf : ∀ e : Entity, e.Sound w id → (f e).Sound w id) :
    Session.Sound w { s with store := s.store.modify id f } where
  entities := by
    intro other e he
    rw [Store.get?_modify] at he
    split_ifs at he with hid
    · subst hid
      obtain ⟨before, hbefore, rfl⟩ := Option.map_eq_some_iff.mp he
      exact hf before (h.entities id before hbefore)
    · exact h.entities other e he
  tracked := h.tracked
  records := h.records
  distinct := h.distinct

theorem Sound.track {s : Session} (h : s.Sound w) (id : EntityId) (state : LifecycleState) :
    (ofPair (s.work.track s.store id state)).Sound w := by
  have hmodify := h.modify id fun e he => (he.withState state).observed
  exact ⟨hmodify.entities, UnitOfWork.nodup_track h.tracked s.store id state, h.records, h.distinct⟩

theorem Sound.flush {s : Session} (h : s.Sound w) : (s.step .flush).Sound w := by
  have hrecords : (∀ r ∈ (s.step .flush).work.accumulated, r.Sound) ∧
      ((s.step .flush).work.accumulated.map ChangeRecord.entity).Nodup := by
    rw [accumulated_flush]
    split_ifs
    · exact ⟨ChangeRecord.sound_absorbAll h.records (Manager.records_sound h.entities),
        ChangeRecord.nodup_absorbAll _ h.distinct⟩
    · exact ⟨h.records, h.distinct⟩
  refine ⟨?_, nodup_tracked_step h.tracked .flush, hrecords.1, hrecords.2⟩
  intro id e he
  rcases s.step_flush with ⟨-, hstep⟩ | ⟨t, hstep, -⟩
  · exact h.entities id e (hstep ▸ he)
  · rw [hstep] at he
    change (UnitOfWork.afterFlush s.store s.work.tracked).2.get? id = some e at he
    rw [UnitOfWork.get?_afterFlush _ h.tracked] at he
    split_ifs at he
    · obtain ⟨before, hbefore, rfl⟩ := Option.map_eq_some_iff.mp he
      exact (h.entities id before hbefore).flushed
    · exact h.entities id e he

/-- A session stays sound in every step that writes sound values. -/
theorem Sound.step {s : Session} (h : s.Sound w) {step : Step} (hstep : step.Sound w) :
    (s.step step).Sound w := by
  cases step with
  | persist id => exact h.track id .new
  | attach id => exact h.track id .managed
  | remove id =>
      simp only [Session.step, UnitOfWork.remove]
      split_ifs
      · exact h
      · have hmodify := h.modify id fun e he => he.unobserved
        exact ⟨hmodify.entities, h.tracked.erase id, h.records, h.distinct⟩
      · exact h.modify id fun e he => he.withState .deleted
  | call id setter value => exact h.modify id fun e he => he.call hstep.1 hstep.2.1 hstep.2.2
  | alter id change => exact h.modify id hstep
  | flush => exact h.flush

theorem Sound.run {s : Session} (h : s.Sound w) {steps : List Step}
    (hsteps : ∀ step ∈ steps, step.Sound w) : (s.run steps).Sound w := by
  induction steps generalizing s with
  | nil => exact h
  | cons step rest ih =>
      rw [List.forall_mem_cons] at hsteps
      exact ih (h.step hsteps.1) hsteps.2

theorem Sound.observedBy? {s : Session} (h : s.Sound w) {id : EntityId} {step : Step}
    {later : ChangeRecord} (hlater : s.observedBy? id step = some later) :
    later.Sound ∧ later.entity = id := by
  cases step with
  | flush =>
      change (if _ then _ else none) = some later at hlater
      split_ifs at hlater
      obtain ⟨o, ho, rfl⟩ := Option.map_eq_some_iff.mp hlater
      obtain ⟨e, he, ho⟩ := Option.bind_eq_some_iff.mp ho
      exact ⟨Manager.observation?_sound (h.entities id e he) ho, Manager.observation?_entity ho⟩
  | _ => cases hlater

theorem Sound.record? {s : Session} (h : s.Sound w) {id : EntityId} {record : ChangeRecord}
    (hrecord : s.record? id = some record) : record.Sound :=
  h.records record (ChangeRecord.entity_of? hrecord).1

end Session

end Chronicle
