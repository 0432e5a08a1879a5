import Chronicle.Proofs.Tracking.Lifecycle

/-!
# Removed entities

How a commit announces an entity that was removed and is deleted in the end: as deleted, whatever was
accumulated about it before, provided that it has a change listener. Without one its deletion is not
observed, and it is announced as it was accumulated before.

## Implementation notes

A tracked entity that is marked as deleted waits for its observation, and the flush that observes it lets
go of it. `Session.DeletionDue` says that one of the two is the case, and every step keeps it.
-/

namespace Chronicle

variable {id : EntityId}

/-- The records of a reachable transaction are of distinct entities. -/
theorem Transaction.Reachable.records_distinct {t : Transaction} (ht : t.Reachable) :
    (t.resources.records.map ChangeRecord.entity).Nodup := by
  induction ht with
  | start => exact List.nodup_nil
  | nonTransactional => exact List.nodup_nil
  | beforeFlush _ hflush ih =>
      rcases Manager.beforeFlush_ok hflush with rfl | rfl
      · exact ih
      · exact ChangeRecord.nodup_absorbAll _ ih
  | collect _ hcollect ih =>
      rcases Manager.collect_ok hcollect with ⟨rfl, -⟩ | ⟨-, rfl, -⟩
      · exact ih
      · exact ih
  | register _ hregister ih =>
      obtain ⟨registered, -, rfl⟩ := Option.map_eq_some_iff.mp hregister
      exact ih
  | bind bound _ ih => exact ih
  | exchange _ _ _ ih => exact ih

/-- Whether a manager takes every entity that is marked as deleted for deleted. -/
def Manager.HeedsMarks (m : Manager) : Prop :=
  ∀ (e : Entity) (changes : Source), e.state = .deleted → m.isDeleted e changes = true

namespace Manager

variable {m : Manager} {e : Entity}

/-- An entity that is marked as deleted is observed if it has a listener. -/
theorem HeedsMarks.isSome_observation? (h : m.HeedsMarks) (hdeleted : e.state = .deleted)
    (hlistener : e.changeListener.isSome = true) : (m.observation? id e).isSome = true := by
  obtain ⟨listener, hsome⟩ := Option.isSome_iff_exists.mp hlistener
  have hnew : e.state ≠ .new := by
    rw [hdeleted]
    exact nofun
  simp only [observation?, if_neg hnew, hsome, h e listener.source hdeleted, if_true, Option.isSome_some]

/-- What is observed about an entity that is marked as deleted is its deletion. -/
theorem HeedsMarks.type_observation? (h : m.HeedsMarks) {o : Observation}
    (ho : m.observation? id e = some o) (hdeleted : e.state = .deleted) : o.record.type = .deleted := by
  obtain ⟨-, ⟨hnew, -, -⟩ | ⟨-, listener, -, ⟨-, htype, -⟩ | ⟨hkept, -, -⟩⟩⟩ := observation?_cases ho
  · exact absurd (hnew.symm.trans hdeleted) nofun
  · exact htype
  · rw [h e listener.source hdeleted] at hkept
    cases hkept

/-- Nothing is observed about an entity without a listener, unless it is new. -/
theorem observation?_eq_none (hstate : e.state ≠ .new) (hlistener : e.changeListener = none) :
    m.observation? id e = none := by
  unfold observation?
  rw [if_neg hstate, hlistener]

end Manager

/-- A flush marks no entity as deleted. -/
theorem Step.Makes.deleted_of_flush {e after : Entity} (h : Step.flush.Makes id e after)
    (hdeleted : after.state = .deleted) : e.state = .deleted := by
  cases h with
  | nothing => exact hdeleted
  | flush =>
      rcases e.flushed_cases with ⟨hstate, -⟩ | ⟨-, hflushed⟩
      · exact hstate
      · rw [hflushed] at hdeleted
        cases hdeleted

namespace Session

variable {s : Session} {steps : List Step}

/-- Whether an entity is removed at some moment of a run while it is tracked. -/
def RemovedIn (s : Session) (steps : List Step) (id : EntityId) : Prop :=
  ∃ first rest, steps = first ++ .remove id :: rest ∧ id ∈ (s.run first).work.tracked

/-- Whether the deletion of an entity, if it is marked as deleted, was observed or will be. -/
def DeletionDue (s : Session) (id : EntityId) : Prop :=
  ∀ e, s.store.get? id = some e → e.state = .deleted →
    (id ∈ s.work.tracked ∧ e.changeListener.isSome = true) ∨
      ∃ r, s.record? id = some r ∧ r.type = .deleted

/-- A change of an entity that marks nothing as deleted and takes no listener keeps a deletion due. -/
theorem DeletionDue.modify (h : s.DeletionDue id) {next : Session} {other : EntityId}
    {f : Entity → Entity} (hstore : next.store = s.store.modify other f)
    (hrecord : next.record? id = s.record? id)
    (htracked : id ∈ s.work.tracked → id ∈ next.work.tracked)
    (hf : ∀ e : Entity, other = id → (f e).state = .deleted → e.state = .deleted ∧
      (e.changeListener.isSome = true → (f e).changeListener.isSome = true)) :
    next.DeletionDue id := by
  intro after hafter hdeleted
  obtain ⟨e, he, hstate, hlistener⟩ : ∃ e, s.store.get? id = some e ∧ e.state = .deleted ∧
      (e.changeListener.isSome = true → after.changeListener.isSome = true) := by
    rw [hstore, Store.get?_modify] at hafter
    split_ifs at hafter with hother
    · obtain ⟨e, he, rfl⟩ := Option.map_eq_some_iff.mp hafter
      exact ⟨e, he, hf e hother hdeleted⟩
    · exact ⟨after, hafter, hdeleted, fun hsome => hsome⟩
  rcases h e he hstate with ⟨hid, hsome⟩ | hobserved
  · exact Or.inl ⟨htracked hid, hlistener hsome⟩
  · exact Or.inr (hrecord ▸ hobserved)

/-- Removing a tracked entity makes its deletion due, or gives the entity up. -/
theorem deletionDue_remove (hheard : ∀ e, s.store.get? id = some e → e.changeListener.isSome = true)
    (hid : id ∈ s.work.tracked) : (s.step (.remove id)).DeletionDue id := by
  intro after hafter hdeleted
  simp only [Session.step, UnitOfWork.remove, List.contains_iff_mem.mpr hid] at hafter ⊢
  split_ifs at hafter ⊢ with hcontains hnew
  · cases hcontains
  -- An entity that is given up is new and not marked as deleted.
  · change (s.store.modify id Entity.unobserved).get? id = some after at hafter
    rw [Store.get?_modify, if_pos rfl] at hafter
    obtain ⟨e, he, rfl⟩ := Option.map_eq_some_iff.mp hafter
    have hstate : e.state = .new := by simpa [UnitOfWork.isNew, he] using hnew
    cases hstate.symm.trans hdeleted
  · change (s.store.modify id (·.withState .deleted)).get? id = some after at hafter
    rw [Store.get?_modify, if_pos rfl] at hafter
    obtain ⟨e, he, rfl⟩ := Option.map_eq_some_iff.mp hafter
    exact Or.inl ⟨hid, hheard e he⟩

/-- After a flush a deletion that was due has been observed. -/
theorem DeletionDue.observed (hs : s.work.tracked.Nodup) (hobserves : s.observes = true)
    (hheeds : s.work.manager.HeedsMarks) (h : s.DeletionDue id) {e : Entity}
    (he : s.store.get? id = some e) (hstate : e.state = .deleted) :
    ∃ r, (s.step .flush).record? id = some r ∧ r.type = .deleted := by
  rw [record?_step hs]
  cases hobserved : s.observed? id with
  | none =>
      have hnone : s.observedBy? id .flush = none := hobserved
      rw [hnone]
      rcases h e he hstate with ⟨hid, hsome⟩ | hrecord
      · have hisSome : (s.work.manager.observation? id e).isSome = true :=
          hheeds.isSome_observation? hstate hsome
        obtain ⟨o, ho⟩ := Option.isSome_iff_exists.mp hisSome
        rw [observed?, if_pos ⟨hobserves, hid⟩, he, Option.bind_some, ho] at hobserved
        cases hobserved
      · exact hrecord
  | some later =>
      have hsome : s.observedBy? id .flush = some later := hobserved
      rw [hsome]
      refine ⟨_, rfl, ?_⟩
      unfold observed? at hobserved
      split_ifs at hobserved
      obtain ⟨o, ho, rfl⟩ := Option.map_eq_some_iff.mp hobserved
      rw [he, Option.bind_some] at ho
      have htype := hheeds.type_observation? ho hstate
      cases s.record? id with
      | none => exact htype
      | some r => exact ChangeRecord.type_merge_of_deleted (Or.inr htype)

/-- A deletion that is due stays so until it is observed. -/
theorem DeletionDue.step {step : Step} (hs : s.work.tracked.Nodup) (hobserves : s.observes = true)
    (hheeds : s.work.manager.HeedsMarks) (hspares : step.Spares id)
    (hheard : id ∈ s.work.tracked → ∀ e, s.store.get? id = some e → e.changeListener.isSome = true)
    (h : s.DeletionDue id) : (s.step step).DeletionDue id := by
  by_cases hflush : step = .flush
  · subst hflush
    intro after hafter hdeleted
    obtain ⟨e, he, hmakes⟩ := makes_step hs hafter
    exact Or.inr (h.observed hs hobserves hheeds he (hmakes.deleted_of_flush hdeleted))
  have hrecord := Follows.record?_move s id hflush
  have htrack : ∀ other state, id ∈ s.work.tracked → id ∈ (s.work.track s.store other state).1.tracked :=
    fun other state hid => (s.work.mem_tracked_track s.store other state id).mpr (Or.inl hid)
  cases step with
  | flush => exact absurd rfl hflush
  | persist other =>
      refine h.modify rfl hrecord (htrack other .new) fun e _ hdeleted => ?_
      rw [Entity.state_observed] at hdeleted
      cases hdeleted
  | attach other =>
      refine h.modify rfl hrecord (htrack other .managed) fun e _ hdeleted => ?_
      rw [Entity.state_observed] at hdeleted
      cases hdeleted
  | remove other =>
      by_cases hother : other = id
      · subst hother
        by_cases hid : other ∈ s.work.tracked
        · exact deletionDue_remove (hheard hid) hid
        · have hremove : s.step (.remove other) = s := by
            simp [Session.step, UnitOfWork.remove, hid, ofPair]
          rwa [hremove]
      · simp only [Session.step, UnitOfWork.remove] at hrecord ⊢
        split_ifs at hrecord ⊢
        · exact h
        · exact h.modify rfl hrecord (fun hid => (List.mem_erase_of_ne (Ne.symm hother)).mpr hid)
            fun _ hid => absurd hid hother
        · exact h.modify rfl hrecord (fun hid => hid) fun _ hid => absurd hid hother
  | call other setter value =>
      refine h.modify rfl hrecord (fun hid => hid) fun e _ hdeleted => ?_
      rw [Entity.state_call] at hdeleted
      exact ⟨hdeleted, fun hsome => (Entity.isSome_call e setter value).trans hsome⟩
  | alter other change =>
      exact h.modify rfl hrecord (fun hid => hid) fun e hother hdeleted =>
        ⟨(hspares hother e).2.1 hdeleted, (hspares hother e).2.2⟩

/-- Whether an entity has enhanced setters and, as long as it is tracked, a change listener. -/
def Attended (s : Session) (id : EntityId) : Prop :=
  ∀ e, s.store.get? id = some e → e.object.type.enhanced = true ∧
    (id ∈ s.work.tracked → e.changeListener.isSome = true)

theorem Attended.step {step : Step} (hs : s.work.tracked.Nodup) (hspares : step.Spares id)
    (h : s.Attended id) : (s.step step).Attended id := by
  intro after hafter
  obtain ⟨e, he, hmakes⟩ := makes_step hs hafter
  have henhanced : after.object.type.enhanced = true := by
    rw [hmakes.type_eq hspares]
    exact (h e he).1
  have hheard : s.Heard id := fun hid e he _ => (h e he).2 hid
  exact ⟨henhanced, fun hid => hheard.step hs hspares hid after hafter henhanced⟩

theorem Attended.run (hs : s.work.tracked.Nodup) (hspares : ∀ step ∈ steps, step.Spares id)
    (h : s.Attended id) : (s.run steps).Attended id := by
  induction steps generalizing s with
  | nil => exact h
  | cons first rest ih =>
      rw [List.forall_mem_cons] at hspares
      exact ih (nodup_tracked_step hs first) hspares.2 (h.step hs hspares.1)

/-- No run changes the type of an entity. -/
theorem type_run (hs : s.work.tracked.Nodup) (hspares : ∀ step ∈ steps, step.Spares id) {after : Entity}
    (hafter : (s.run steps).store.get? id = some after) :
    ∃ e, s.store.get? id = some e ∧ after.object.type = e.object.type := by
  induction steps generalizing s with
  | nil => exact ⟨after, hafter, rfl⟩
  | cons first rest ih =>
      rw [List.forall_mem_cons] at hspares
      obtain ⟨next, hnext, htype⟩ := ih (nodup_tracked_step hs first) hspares.2 hafter
      obtain ⟨e, he, hmakes⟩ := makes_step hs hnext
      exact ⟨e, he, htype.trans (hmakes.type_eq hspares.1)⟩

theorem DeletionDue.run (hs : s.work.tracked.Nodup) (hobserves : s.observes = true)
    (hheeds : s.work.manager.HeedsMarks) (hspares : ∀ step ∈ steps, step.Spares id)
    (hattended : s.Attended id) (h : s.DeletionDue id) : (s.run steps).DeletionDue id := by
  induction steps generalizing s with
  | nil => exact h
  | cons first rest ih =>
      rw [List.forall_mem_cons] at hspares
      refine ih (nodup_tracked_step hs first) ((s.observes_step first).trans hobserves) ?_ hspares.2
        (hattended.step hs hspares.1) ?_
      · rwa [manager_step]
      · exact h.step hs hobserves hheeds hspares.1 (fun hid e he => (hattended e he).2 hid)

/-- The deletion of an entity that is removed while it is tracked is due for the rest of the run. -/
theorem RemovedIn.deletionDue (hs : s.work.tracked.Nodup) (hobserves : s.observes = true)
    (hheeds : s.work.manager.HeedsMarks) (hspares : ∀ step ∈ steps, step.Spares id)
    (hattended : s.Attended id) (h : s.RemovedIn steps id) : (s.run steps).DeletionDue id := by
  obtain ⟨first, rest, rfl, hid⟩ := h
  rw [List.forall_mem_append, List.forall_mem_cons] at hspares
  obtain ⟨hbefore, hremove, hafter⟩ := hspares
  have hnodup := nodup_tracked_run hs first
  have hremoved := hattended.run hs hbefore
  rw [run_append, run_cons]
  apply DeletionDue.run (nodup_tracked_step hnodup _) _ _ hafter (hremoved.step hnodup hremove)
  · exact deletionDue_remove (fun known hknown => (hremoved known hknown).2 hid) hid
  · rwa [observes_step, observes_run]
  · rwa [manager_step, manager_run]

/-- A flush adds nothing to the record of an entity without a listener, unless the entity is new. -/
theorem record?_flush_of_unobserved (hs : s.work.tracked.Nodup) {e : Entity}
    (he : s.store.get? id = some e) (hnew : e.state ≠ .new) (hlistener : e.changeListener = none) :
    (s.step .flush).record? id = s.record? id := by
  have hnone : s.observedBy? id .flush = none := by
    change s.observed? id = none
    unfold observed?
    rw [he, Option.bind_some, Manager.observation?_eq_none hnew hlistener]
    exact ite_self none
  rw [record?_step hs, hnone]
  rfl

/-- The events of a commit about an entity are those of the record that one more flush would leave. -/
theorem event_iff (hobserves : s.observes = true)
    (hdistinct : (s.work.accumulated.map ChangeRecord.entity).Nodup) {events : List Event}
    (hcommit : (s.work.commit s.store).result = .ok events) (type : ChangeType) :
    (∃ event ∈ events, event.source = id ∧ event.type = type) ↔
      ∃ r, (s.step .flush).record? id = some r ∧ r.type = type := by
  constructor
  · rintro ⟨event, hevent, rfl, rfl⟩
    obtain ⟨r, hr, htype, -⟩ := record?_of_event hdistinct hcommit hevent
    exact ⟨r, hr, htype.symm⟩
  · rintro ⟨r, hr, rfl⟩
    rw [commit_result hobserves, Except.ok.injEq] at hcommit
    obtain ⟨hmem, hentity⟩ := ChangeRecord.entity_of? hr
    exact ⟨_, hcommit ▸ List.mem_map_of_mem hmem, hentity, rfl⟩

/-- What commits with tracking enabled observes entities. -/
theorem observes_of_commit (henabled : s.work.manager.config.enabled = true) {events : List Event}
    (hcommit : (s.work.commit s.store).result = .ok events) : s.observes = true := by
  cases hrefuses : s.work.manager.refuses s.work.transaction with
  | false => exact s.observes_iff.mpr ⟨henabled, hrefuses⟩
  | true =>
      unfold UnitOfWork.commit at hcommit
      rw [(Manager.refused_eq henabled hrefuses s.store s.work.tracked).2] at hcommit
      cases hcommit

end Session

/-- An entity with enhanced setters that was removed in a run and is deleted in the end is announced by the
commit, and only as deleted, whatever was accumulated about it before, if the manager heeds marks and the
steps spare the entity. An entity that is deleted in the end and has no change listener is skipped by the
commit, whatever the steps were: it is announced as it was accumulated before. -/
theorem removed_announced_as_deleted {s : Session} (ht : s.work.transaction.Reachable)
    (hfresh : s.work.tracked = []) (henabled : s.work.manager.config.enabled = true)
    {steps : List Step} {e : Entity} (he : (s.run steps).store.get? id = some e)
    (hdeleted : e.state = .deleted) {events : List Event}
    (hcommit : ((s.run steps).work.commit (s.run steps).store).result = .ok events) :
    (s.work.manager.HeedsMarks → (∀ step ∈ steps, step.Spares id) → s.RemovedIn steps id →
      e.object.type.enhanced = true →
      (∃ event ∈ events, event.source = id ∧ event.type = .deleted) ∧
        ∀ event ∈ events, event.source = id → event.type = .deleted) ∧
      (e.changeListener = none → ∀ type,
        (∃ event ∈ events, event.source = id ∧ event.type = type) ↔
          ∃ r, (s.run steps).record? id = some r ∧ r.type = type) := by
  have hs : s.work.tracked.Nodup := hfresh ▸ List.nodup_nil
  have hlast : (s.run steps).work.tracked.Nodup := Session.nodup_tracked_run hs steps
  have hobserves : (s.run steps).observes = true :=
    Session.observes_of_commit (by rwa [Session.manager_run]) hcommit
  have hevents : ∀ type, (∃ event ∈ events, event.source = id ∧ event.type = type) ↔
      ∃ r, ((s.run steps).step .flush).record? id = some r ∧ r.type = type :=
    Session.event_iff hobserves (Session.distinct_run ht.records_distinct steps) hcommit
  refine ⟨?_, ?_⟩
  · intro hheeds hspares hremoved henhanced
    have hattended : s.Attended id := by
      obtain ⟨start, hstart, htype⟩ := Session.type_run hs hspares he
      intro known hknown
      rw [hstart, Option.some.injEq] at hknown
      subst hknown
      exact ⟨htype ▸ henhanced, fun htracked => by rw [hfresh] at htracked; cases htracked⟩
    have hdue : (s.run steps).DeletionDue id :=
      hremoved.deletionDue hs ((s.observes_run steps).symm.trans hobserves) hheeds hspares hattended
    obtain ⟨r, hr, htype⟩ := hdue.observed hlast hobserves (by rwa [Session.manager_run]) he hdeleted
    refine ⟨(hevents .deleted).mpr ⟨r, hr, htype⟩, fun event hevent hsource => ?_⟩
    obtain ⟨other, hother, heq⟩ := (hevents event.type).mp ⟨event, hevent, hsource, rfl⟩
    rw [hr, Option.some.injEq] at hother
    rw [← heq, ← hother, htype]
  · intro hlistener type
    have hnew : e.state ≠ .new := by
      rw [hdeleted]
      exact nofun
    rw [hevents type, Session.record?_flush_of_unobserved hlast he hnew hlistener]

/-- Of two new persons the second one is removed after a flush: it was accumulated as created, and is
announced as deleted. -/
theorem departed_announced_as_deleted :
    ∃ events, (((Session.start [Sample.ann, Sample.ann]).run Sample.departure).work.commit
        ((Session.start [Sample.ann, Sample.ann]).run Sample.departure).store).result = .ok events ∧
      (∃ r, ((Session.start [Sample.ann, Sample.ann]).run Sample.departure).record? 1 = some r ∧
        r.type = .created) ∧
      (∃ event ∈ events, event.source = 1 ∧ event.type = .deleted) ∧
        ∀ event ∈ events, event.source = 1 → event.type = .deleted := by
  have hheeds : Manager.HeedsMarks {} := by
    intro e changes hdeleted
    exact Bool.or_eq_true_iff.mpr (Or.inl (decide_eq_true hdeleted))
  have hspares : ∀ step ∈ Sample.departure, step.Spares 1 := by
    simp [Sample.departure, Step.Spares]
  have hremoved : (Session.start [Sample.ann, Sample.ann]).RemovedIn Sample.departure 1 :=
    ⟨Sample.departure.take 3, [], rfl, by decide⟩
  have hcommit : (((Session.start [Sample.ann, Sample.ann]).run Sample.departure).work.commit
      ((Session.start [Sample.ann, Sample.ann]).run Sample.departure).store).result = .ok _ := rfl
  obtain ⟨hannounced, -⟩ := @removed_announced_as_deleted 1 (Session.start [Sample.ann, Sample.ann])
    .start rfl rfl Sample.departure _ rfl rfl _ hcommit
  exact ⟨_, hcommit, ⟨_, rfl, rfl⟩, hannounced hheeds hspares hremoved rfl⟩

/-- Whether a commit after a run announces an entity as alive that was removed and is deleted. -/
def Session.AnnouncesAlive (s : Session) (steps : List Step) (id : EntityId) : Prop :=
  s.RemovedIn steps id ∧ (∃ e, (s.run steps).store.get? id = some e ∧ e.state = .deleted) ∧
    ∃ events, ((s.run steps).work.commit (s.run steps).store).result = .ok events ∧
      ∃ event ∈ events, event.source = id ∧ event.type ≠ .deleted

namespace Sample

/-- An entity whose setters tell nobody. -/
def plainNote : Entity where
  object := Object.fresh untracked

/-- A new entity that is removed after a flush. -/
def withdrawal : List Step := [.persist 0, .flush, .remove 0]

end Sample

open Sample in
/-- An entity is announced as created though it is deleted, if its setters tell nobody; and also a person, if
the manager takes nobody for deleted or if the listener is taken from outside. -/
theorem deleted_announced_as_created :
    (Session.start [plainNote]).AnnouncesAlive withdrawal 0 ∧
      Session.AnnouncesAlive ⟨⟨{ isDeleted := fun _ _ => false }, .start, []⟩, ⟨[ann]⟩⟩ withdrawal 0 ∧
      (Session.start [ann]).AnnouncesAlive [.persist 0, .flush, .alter 0 Entity.unobserved, .remove 0]
        0 := by
  refine ⟨⟨⟨withdrawal.take 2, [], rfl, by decide⟩, ⟨_, rfl, rfl⟩, _, rfl, _,
      List.mem_singleton_self _, rfl, nofun⟩,
    ⟨⟨withdrawal.take 2, [], rfl, by decide⟩, ⟨_, rfl, rfl⟩, _, rfl, _,
      List.mem_singleton_self _, rfl, nofun⟩,
    ⟨⟨[.persist 0, .flush, .alter 0 Entity.unobserved], [], rfl, by decide⟩, ⟨_, rfl, rfl⟩, _, rfl, _,
      List.mem_singleton_self _, rfl, nofun⟩⟩

end Chronicle
