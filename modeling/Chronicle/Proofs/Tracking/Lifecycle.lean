import Chronicle.Proofs.Tracking.Rollback

/-!
# The tracked entities

What a unit of work tracks at any moment of a run: no entity twice, and every entity with enhanced
setters with a change listener. A flush makes all tracked entities managed and quiet and lets go of the
deleted ones; an entity that is removed while it is new is let go of at once.

## Implementation notes

The state, the change listener and the place among the tracked entities are moved by every operation
together. `Session.Heard` pairs the last two and is kept by every step that leaves the entry of the
entity to the unit of work. What a flush does to the tracked entities is told by `UnitOfWork.FlushesTo`
for any entities that are tracked once.
-/

namespace Chronicle

variable {id : EntityId}

/-! ## Entries -/

namespace Entity

@[simp] theorem state_observed (e : Entity) : e.observed.state = e.state := by
  unfold observed
  split_ifs <;> rfl

@[simp] theorem type_observed (e : Entity) : e.observed.object.type = e.object.type := by
  unfold observed
  split_ifs <;> rfl

/-- An entity with enhanced setters has a change listener once it is tracked. -/
theorem isSome_observed {e : Entity} (h : e.object.type.enhanced = true) :
    e.observed.changeListener.isSome = true := by
  unfold observed
  cases hlistener : e.changeListener with
  | none => simp [h]
  | some listener => simp [hlistener]

@[simp] theorem isSome_call (e : Entity) (setter : Setter) (value : Value) :
    (e.call setter value).1.changeListener.isSome = e.changeListener.isSome := by
  rw [call_fst]
  dsimp only
  split_ifs <;> simp

@[simp] theorem state_call (e : Entity) (setter : Setter) (value : Value) :
    (e.call setter value).1.state = e.state := by
  rw [call_fst]

/-- A flush leaves an entity deleted, or managed with a listener that has forgotten its changes. -/
theorem flushed_cases (e : Entity) :
    (e.state = .deleted ∧ e.flushed = e.unobserved) ∨
      (e.state ≠ .deleted ∧ e.flushed = (e.withState .managed).clearChanges) := by
  obtain ⟨object, state, listeners, changeListener⟩ := e
  cases state with
  | new => exact Or.inr ⟨nofun, rfl⟩
  | managed => exact Or.inr ⟨nofun, rfl⟩
  | deleted => exact Or.inl ⟨rfl, rfl⟩

end Entity

/-! ## Steps and entries -/

namespace Step

/-- Whether a step leaves the entries of all entities to the unit of work: setters keep the type of their
object, and what else is done to an entity keeps its type, its state and its change listener. -/
def KeepsEntries : Step → Prop
  | .call _ setter _ => ∀ o value, (setter.body o value).type = o.type
  | .alter _ change => ∀ e : Entity, (change e).object.type = e.object.type ∧
      (change e).state = e.state ∧ (change e).changeListener = e.changeListener
  | _ => True

/-- Whether a step leaves it to the unit of work to mark an entity as deleted and to take its change
listener. -/
def Spares (id : EntityId) : Step → Prop
  | .call other setter _ => other = id → ∀ o value, (setter.body o value).type = o.type
  | .alter other change => other = id → ∀ e : Entity, (change e).object.type = e.object.type ∧
      ((change e).state = .deleted → e.state = .deleted) ∧
      (e.changeListener.isSome = true → (change e).changeListener.isSome = true)
  | _ => True

variable {step : Step} {e after : Entity}

theorem KeepsEntries.spares (h : step.KeepsEntries) (id : EntityId) : step.Spares id := by
  cases step with
  | call other setter value => exact fun _ => h
  | alter other change =>
      intro _ e
      obtain ⟨htype, hstate, hlistener⟩ := h e
      exact ⟨htype, fun hdeleted => hstate ▸ hdeleted, fun hsome => hlistener ▸ hsome⟩
  | _ => trivial

theorem KeepsEntries.keepsListeners (h : step.KeepsEntries) : step.KeepsListeners := by
  cases step with
  | alter other change => exact fun e => (h e).2.2
  | _ => trivial

/-- No step changes the type of an entity. -/
theorem Makes.type_eq (h : step.Makes id e after) (hspares : step.Spares id) :
    after.object.type = e.object.type := by
  cases h with
  | nothing => rfl
  | persist => exact Entity.type_observed _
  | attach => exact Entity.type_observed _
  | giveUp => rfl
  | delete => rfl
  | call setter value =>
      rw [Entity.call_fst]
      exact hspares rfl e.object value
  | alter change => exact (hspares rfl e).1
  | flush =>
      unfold Entity.flushed
      cases e.state <;> rfl

end Step

/-! ## Listeners of tracked entities -/

namespace Session

variable {s : Session} {steps : List Step}

/-- Whether an entity with enhanced setters has a change listener as long as it is tracked. -/
def Heard (s : Session) (id : EntityId) : Prop :=
  id ∈ s.work.tracked → ∀ e, s.store.get? id = some e → e.object.type.enhanced = true →
    e.changeListener.isSome = true

/-- What keeps the type and the listener of an entity keeps it heard. -/
theorem Heard.modify (h : s.Heard id) {other : EntityId} {f : Entity → Entity}
    (htype : ∀ e : Entity, other = id → (f e).object.type = e.object.type)
    (hlistener : ∀ e : Entity, other = id → e.changeListener.isSome = true →
      (f e).changeListener.isSome = true) :
    Heard { s with store := s.store.modify other f } id := by
  intro htracked e he henhanced
  change (s.store.modify other f).get? id = some e at he
  rw [Store.get?_modify] at he
  split_ifs at he with hother
  · obtain ⟨before, hbefore, rfl⟩ := Option.map_eq_some_iff.mp he
    rw [htype before hother] at henhanced
    exact hlistener before hother (h htracked before hbefore henhanced)
  · exact h htracked e he henhanced

/-- Tracking an entity installs a listener if there is none. -/
theorem Heard.track (h : s.Heard id) (other : EntityId) (state : LifecycleState) :
    (ofPair (s.work.track s.store other state)).Heard id := by
  intro htracked e he henhanced
  change (s.store.modify other fun e => (e.withState state).observed).get? id = some e at he
  rw [Store.get?_modify] at he
  split_ifs at he with hother
  · obtain ⟨before, -, rfl⟩ := Option.map_eq_some_iff.mp he
    rw [Entity.type_observed] at henhanced
    exact Entity.isSome_observed henhanced
  · have hmem : id ∈ s.work.tracked :=
      ((s.work.mem_tracked_track s.store other state id).mp htracked).resolve_right (Ne.symm hother)
    exact h hmem e he henhanced

/-- No step leaves a tracked entity with enhanced setters without a listener. -/
theorem Heard.step {step : Step} (hs : s.work.tracked.Nodup) (hspares : step.Spares id) (h : s.Heard id) :
    (s.step step).Heard id := by
  cases step with
  | persist other => exact h.track other .new
  | attach other => exact h.track other .managed
  | remove other =>
      simp only [Session.step, UnitOfWork.remove]
      split_ifs
      · exact h
      -- The entity that loses its listener is no longer tracked.
      · intro htracked e he
        change id ∈ s.work.tracked.erase other at htracked
        change (s.store.modify other Entity.unobserved).get? id = some e at he
        rw [hs.mem_erase_iff] at htracked
        rw [Store.get?_modify, if_neg (Ne.symm htracked.1)] at he
        exact h htracked.2 e he
      · exact h.modify (fun _ _ => rfl) fun _ _ hsome => hsome
  | call other setter value =>
      apply h.modify
      · intro e hother
        rw [Entity.call_fst]
        exact hspares hother e.object value
      · intro e _ hsome
        rwa [Entity.isSome_call]
  | alter other change =>
      exact h.modify (fun e hother => (hspares hother e).1) fun e hother => (hspares hother e).2.2
  | flush =>
      rcases s.step_flush with ⟨-, hstep⟩ | ⟨t, hstep, -⟩
      · rwa [hstep]
      · rw [hstep]
        intro hkept e he henhanced
        change (UnitOfWork.afterFlush s.store s.work.tracked).2.get? id = some e at he
        obtain ⟨htracked, hstate⟩ := List.mem_filter.mp hkept
        rw [UnitOfWork.get?_afterFlush _ hs, if_pos htracked] at he
        obtain ⟨before, hbefore, rfl⟩ := Option.map_eq_some_iff.mp he
        have hmanaged : before.state ≠ .deleted := by simpa [hbefore] using hstate
        rcases before.flushed_cases with ⟨hdeleted, -⟩ | ⟨-, hflushed⟩
        · exact absurd hdeleted hmanaged
        · rw [hflushed] at henhanced ⊢
          exact (Option.isSome_map).trans (h htracked before hbefore henhanced)

theorem Heard.run (hs : s.work.tracked.Nodup) (hspares : ∀ step ∈ steps, step.Spares id)
    (h : s.Heard id) : (s.run steps).Heard id := by
  induction steps generalizing s with
  | nil => exact h
  | cons first rest ih =>
      rw [List.forall_mem_cons] at hspares
      exact ih (nodup_tracked_step hs first) hspares.2 (h.step hs hspares.1)

end Session

/-! ## Flushes and removals -/

namespace UnitOfWork

/-- What a flush makes of the tracked entities. -/
structure FlushesTo (u : UnitOfWork) (store : Store) (next : UnitOfWork) (after : Store) : Prop where
  order : next.tracked.Sublist u.tracked
  kept : ∀ id e, store.get? id = some e →
    (id ∈ next.tracked ↔ id ∈ u.tracked ∧ e.state ≠ .deleted)
  managed : ∀ id ∈ next.tracked, ∀ e, after.get? id = some e → e.state = .managed ∧ e.Quiet
  unobserved : ∀ id ∈ u.tracked, id ∉ next.tracked → ∀ e, after.get? id = some e →
    e.changeListener = none

/-- What a removal makes of an entity that is tracked and new. -/
structure GivesUp (u : UnitOfWork) (id : EntityId) (next : UnitOfWork) (after : Store) : Prop where
  order : next.tracked.Sublist u.tracked
  kept : ∀ other, other ∈ next.tracked ↔ other ∈ u.tracked ∧ other ≠ id
  unobserved : ∀ e, after.get? id = some e → e.changeListener = none

variable {u next : UnitOfWork} {store after : Store}

theorem flushesTo_of_flush (hu : u.tracked.Nodup)
    (hforgets : ∀ id e, store.get? id = some e → e.Forgets)
    (h : u.flush store = .ok (next, after)) : u.FlushesTo store next after := by
  obtain ⟨t, -, hnext⟩ : ∃ t, u.manager.beforeFlush store u.transaction u.tracked = .ok t ∧
      ({ u with transaction := t, tracked := (afterFlush store u.tracked).1 },
        (afterFlush store u.tracked).2) = (next, after) := by
    unfold flush at h
    cases hflush : u.manager.beforeFlush store u.transaction u.tracked with
    | error refusal =>
        rw [hflush] at h
        cases h
    | ok t =>
        rw [hflush] at h
        exact ⟨t, rfl, Except.ok.inj h⟩
  cases hnext
  have hkept : ∀ id e, store.get? id = some e →
      (id ∈ (afterFlush store u.tracked).1 ↔ id ∈ u.tracked ∧ e.state ≠ .deleted) := by
    intro id e he
    unfold afterFlush
    rw [List.mem_filter, he]
    simp
  -- What stands at a tracked place afterwards is what was there before, flushed.
  have hflushed : ∀ id ∈ u.tracked, ∀ e, (afterFlush store u.tracked).2.get? id = some e →
      ∃ before, store.get? id = some before ∧ e = before.flushed := by
    intro id hid e he
    rw [get?_afterFlush _ hu, if_pos hid] at he
    obtain ⟨before, hbefore, rfl⟩ := Option.map_eq_some_iff.mp he
    exact ⟨before, hbefore, rfl⟩
  refine ⟨List.filter_sublist, hkept, ?_, ?_⟩
  · intro id hid e he
    obtain ⟨before, hbefore, rfl⟩ := hflushed id (List.mem_filter.mp hid).1 e he
    have hstate := ((hkept id before hbefore).mp hid).2
    rcases before.flushed_cases with ⟨hdeleted, -⟩ | ⟨-, heq⟩
    · exact absurd hdeleted hstate
    · rw [heq]
      have hbeforeforgets : (before.withState .managed).Forgets := hforgets id before hbefore
      exact ⟨rfl, hbeforeforgets.clearChanges_quiet⟩
  · intro id hid hleft e he
    obtain ⟨before, hbefore, rfl⟩ := hflushed id hid e he
    rcases before.flushed_cases with ⟨-, heq⟩ | ⟨hstate, -⟩
    · rw [heq]
      rfl
    · exact absurd ((hkept id before hbefore).mpr ⟨hid, hstate⟩) hleft

theorem givesUp_of_new (hu : u.tracked.Nodup) (hid : id ∈ u.tracked) {e : Entity}
    (he : store.get? id = some e) (hnew : e.state = .new) :
    u.GivesUp id (u.remove store id).1 (u.remove store id).2 := by
  have hremove : u.remove store id =
      ({ u with tracked := u.tracked.erase id }, store.modify id Entity.unobserved) := by
    have hcontains : u.tracked.contains id = true := List.contains_iff_mem.mpr hid
    have hisNew : isNew store id = true := by simp [isNew, he, hnew]
    unfold remove
    rw [hcontains, hisNew]
    rfl
  rw [hremove]
  refine ⟨List.erase_sublist, ?_, ?_⟩
  · intro other
    exact (hu.mem_erase_iff).trans and_comm
  · intro after hafter
    change (store.modify id Entity.unobserved).get? id = some after at hafter
    rw [Store.get?_modify, if_pos rfl] at hafter
    obtain ⟨before, -, rfl⟩ := Option.map_eq_some_iff.mp hafter
    rfl

end UnitOfWork

/-- At every moment of a run no entity is tracked twice, and every tracked entity with enhanced setters
has a change listener. Every flush that is not refused then leaves exactly the tracked entities that were
not deleted, in their order, all of them managed and without recorded changes, and takes the listeners of
the others; and a removal of a tracked entity that is new lets go of this one alone and takes its
listener. -/
theorem tracking_follows_lifecycle {s : Session} (hfresh : s.work.tracked = [])
    (hforgets : ∀ id e, s.store.get? id = some e → e.Forgets) {steps : List Step}
    (hkeeps : ∀ step ∈ steps, step.KeepsEntries) :
    (s.run steps).work.tracked.Nodup ∧
      (∀ id ∈ (s.run steps).work.tracked, ∀ e, (s.run steps).store.get? id = some e →
        e.object.type.enhanced = true → e.changeListener.isSome = true) ∧
      (∀ next after, (s.run steps).work.flush (s.run steps).store = .ok (next, after) →
        (s.run steps).work.FlushesTo (s.run steps).store next after) ∧
      ∀ id ∈ (s.run steps).work.tracked, ∀ e, (s.run steps).store.get? id = some e →
        e.state = .new → (s.run steps).work.GivesUp id
          ((s.run steps).work.remove (s.run steps).store id).1
          ((s.run steps).work.remove (s.run steps).store id).2 := by
  have hs : s.work.tracked.Nodup := hfresh ▸ List.nodup_nil
  have hnodup : (s.run steps).work.tracked.Nodup := Session.nodup_tracked_run hs steps
  have hheard : ∀ id, (s.run steps).Heard id := by
    intro id
    have hstart : s.Heard id := by
      intro hid
      rw [hfresh] at hid
      cases hid
    exact hstart.run hs fun step hstep => (hkeeps step hstep).spares id
  have hforget : ∀ id e, (s.run steps).store.get? id = some e → e.Forgets := fun id =>
    Session.forgets_run hs (fun step hstep => (hkeeps step hstep).keepsListeners) (hforgets id)
  refine ⟨hnodup, fun id hid => hheard id hid, ?_, ?_⟩
  · intro next after hflush
    exact UnitOfWork.flushesTo_of_flush hnodup hforget hflush
  · intro id hid e he hnew
    exact UnitOfWork.givesUp_of_new hnodup hid he hnew

namespace Sample

/-- What is done to two persons, of whom the first one is changed and removed and the second one is new. -/
def turnover : List Step :=
  [.attach 0, .call 0 setCreator (.scalar (.text "mallory")), .persist 1, .remove 0]

theorem keepsEntries_turnover : ∀ step ∈ turnover, step.KeepsEntries := by
  simp [turnover, Step.KeepsEntries, setCreator, Setter.assigning, Object.assign]

theorem forgets_pair : ∀ id e, (Session.start [ann, ann]).store.get? id = some e → e.Forgets := by
  intro id e he listener hlistener
  have hann : e ∈ [ann, ann] := List.mem_of_getElem? he
  simp only [List.mem_cons, List.not_mem_nil, or_false, or_self] at hann
  rw [hann] at hlistener
  cases hlistener

end Sample

open Sample in
/-- After the flush only the second person is tracked, and the first one has no listener any more. -/
theorem turnover_tracked :
    ∃ next after, ((Session.start [ann, ann]).run turnover).work.flush
        ((Session.start [ann, ann]).run turnover).store = .ok (next, after) ∧
      next.tracked = [1] ∧ (∀ e, after.get? 1 = some e → e.state = .managed ∧ e.Quiet) ∧
      ∀ e, after.get? 0 = some e → e.changeListener = none := by
  obtain ⟨-, -, hflush, -⟩ := tracking_follows_lifecycle (s := Session.start [ann, ann]) rfl
    forgets_pair keepsEntries_turnover
  refine ⟨_, _, rfl, rfl, ?_, ?_⟩
  · exact (hflush _ _ rfl).managed 1 (List.mem_singleton_self 1)
  · exact (hflush _ _ rfl).unobserved 0 (by decide) (by decide)

end Chronicle
