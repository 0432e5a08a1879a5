import Chronicle.Proofs.Tracking.Following

/-!
# Pending changes

What the change listener of an entity would report at the next flush, and how steps add to it: only calls
of setters do.

## Implementation notes

`Step.Makes` says once what a step can make of an entity. What a property of entities becomes in a step is
then told by its cases.
-/

namespace Chronicle

variable {id : EntityId}

/-! ## What steps make of entities -/

/-- What a step can make of an entity. -/
inductive Step.Makes (id : EntityId) (e : Entity) : Step → Entity → Prop
  | nothing (step : Step) : Makes id e step e
  | persist : Makes id e (.persist id) (e.withState .new).observed
  | attach : Makes id e (.attach id) (e.withState .managed).observed
  | giveUp : Makes id e (.remove id) e.unobserved
  | delete : Makes id e (.remove id) (e.withState .deleted)
  | call (setter : Setter) (value : Value) :
    Makes id e (.call id setter value) (e.call setter value).1
  | alter (change : Entity → Entity) : Makes id e (.alter id change) (change e)
  | flush : Makes id e .flush e.flushed

namespace Session

variable {s : Session} {step : Step}

/-- What is at a place after a function was applied at a place. -/
theorem makes_modify {other : EntityId} {f : Entity → Entity} {after : Entity}
    (h : (s.store.modify other f).get? id = some after)
    (hmakes : ∀ e, other = id → step.Makes id e (f e)) :
    ∃ e, s.store.get? id = some e ∧ step.Makes id e after := by
  rw [Store.get?_modify] at h
  split_ifs at h with hother
  · obtain ⟨e, he, rfl⟩ := Option.map_eq_some_iff.mp h
    exact ⟨e, he, hmakes e hother⟩
  · exact ⟨after, h, .nothing step⟩

/-- Every entity after a step is what the step makes of the entity before. -/
theorem makes_step (hs : s.work.tracked.Nodup) {after : Entity}
    (h : (s.step step).store.get? id = some after) :
    ∃ e, s.store.get? id = some e ∧ step.Makes id e after := by
  cases step with
  | persist other => exact makes_modify h (by rintro e rfl; exact .persist)
  | attach other => exact makes_modify h (by rintro e rfl; exact .attach)
  | remove other =>
      simp only [Session.step, UnitOfWork.remove] at h
      split_ifs at h
      · exact ⟨after, h, .nothing _⟩
      · exact makes_modify h (by rintro e rfl; exact .giveUp)
      · exact makes_modify h (by rintro e rfl; exact .delete)
  | call other setter value => exact makes_modify h (by rintro e rfl; exact .call setter value)
  | alter other change => exact makes_modify h (by rintro e rfl; exact .alter change)
  | flush =>
      rcases s.step_flush with ⟨-, hstep⟩ | ⟨t, hstep, -⟩
      · rw [hstep] at h
        exact ⟨after, h, .nothing _⟩
      · rw [hstep] at h
        change (UnitOfWork.afterFlush s.store s.work.tracked).2.get? id = some after at h
        rw [UnitOfWork.get?_afterFlush _ hs] at h
        split_ifs at h
        · obtain ⟨e, he, rfl⟩ := Option.map_eq_some_iff.mp h
          exact ⟨e, he, .flush⟩
        · exact ⟨after, h, .nothing _⟩

/-- A tracked entity is tracked after a step as well, or it has no change listener any more. -/
theorem tracked_step (hs : s.work.tracked.Nodup) (h : id ∈ s.work.tracked) (step : Step) :
    id ∈ (s.step step).work.tracked ∨
      ∀ after, (s.step step).store.get? id = some after → after.changeListener = none := by
  have htrack : ∀ other state, id ∈ (s.work.track s.store other state).1.tracked :=
    fun other state => (s.work.mem_tracked_track s.store other state id).mpr (Or.inl h)
  cases step with
  | persist other => exact Or.inl (htrack other .new)
  | attach other => exact Or.inl (htrack other .managed)
  | remove other =>
      simp only [Session.step, UnitOfWork.remove]
      split_ifs
      · exact Or.inl h
      · by_cases hother : other = id
        · right
          intro after hafter
          change (s.store.modify other Entity.unobserved).get? id = some after at hafter
          rw [Store.get?_modify, if_pos hother] at hafter
          obtain ⟨e, -, rfl⟩ := Option.map_eq_some_iff.mp hafter
          rfl
        · exact Or.inl ((List.mem_erase_of_ne (Ne.symm hother)).mpr h)
      · exact Or.inl h
  | call other setter value => exact Or.inl h
  | alter other change => exact Or.inl h
  | flush =>
      rcases s.step_flush with ⟨-, hstep⟩ | ⟨t, hstep, -⟩
      · rw [hstep]
        exact Or.inl h
      · rw [hstep]
        by_cases hkept : (s.store.get? id).any (·.state ≠ .deleted) = true
        · exact Or.inl (List.mem_filter.mpr ⟨h, hkept⟩)
        · right
          intro after hafter
          change (UnitOfWork.afterFlush s.store s.work.tracked).2.get? id = some after at hafter
          rw [UnitOfWork.get?_afterFlush _ hs, if_pos h] at hafter
          obtain ⟨e, he, rfl⟩ := Option.map_eq_some_iff.mp hafter
          have hstate : e.state = .deleted := by simpa [he] using hkept
          rw [Entity.flushed, hstate]
          rfl

end Session

/-! ## Pending changes -/

/-- A recorded change gives no other attribute an entry. -/
theorem ChangeSet.mem_names_of_record {set : ChangeSet} {attr : String} {old new : Value}
    {name : String} (h : name ∈ (set.record attr old new).names) : name ∈ set.names ∨ attr = name := by
  by_cases hname : attr = name
  · exact Or.inr hname
  · rw [← ChangeSet.get?_isSome_iff, ChangeSet.record, ChangeSet.get?_note, if_neg hname,
      ChangeSet.get?_isSome_iff] at h
    exact Or.inl h

namespace ChangeListener

/-- The attributes of which a listener would report changes. -/
def pending (listener : ChangeListener) : List String :=
  if listener.source.hasChanges then listener.source.names else []

@[simp] theorem pending_recording (changes : ChangeSet) :
    (recording changes).pending = changes.names := by
  change (if (!changes.isEmpty) = true then changes.recording.names else []) = changes.names
  rw [ChangeSet.names_recording]
  cases changes <;> rfl

/-- A listener that is told of a change has nothing else to report afterwards. -/
theorem mem_pending_notified {listener : ChangeListener} {change : PropertyChange} {name : String}
    (h : name ∈ (listener.notified change).pending) :
    name ∈ listener.pending ∨ change.property = name := by
  cases listener with
  | recording changes =>
      rw [notified, pending_recording] at h
      rw [pending_recording]
      exact ChangeSet.mem_names_of_record h
  | fixed source => exact Or.inl h

/-- A listener that is cleared has nothing new to report. -/
theorem mem_pending_cleared {listener : ChangeListener} {name : String}
    (h : name ∈ listener.cleared.pending) : name ∈ listener.pending := by
  cases listener with
  | recording changes => cases h
  | fixed source => exact h

@[simp] theorem cleared_notified (listener : ChangeListener) (change : PropertyChange) :
    (listener.notified change).cleared = listener.cleared := by
  cases listener <;> rfl

@[simp] theorem cleared_cleared (listener : ChangeListener) :
    listener.cleared.cleared = listener.cleared := by
  cases listener <;> rfl

end ChangeListener

namespace Entity

variable {e after : Entity} {step : Step} {name : String}

/-- The attributes of which changes would be reported. -/
def pending (e : Entity) : List String := (e.changeListener.map ChangeListener.pending).getD []

/-- Whether an entity has no change listener, or one that knows of no changes. -/
def Quiet (e : Entity) : Prop := ∀ listener ∈ e.changeListener, listener.source.hasChanges = false

/-- Whether the change listener of an entity, if there is one, forgets its changes when it is cleared. -/
def Forgets (e : Entity) : Prop :=
  ∀ listener ∈ e.changeListener, listener.cleared.source.hasChanges = false

theorem Quiet.pending_eq_nil (h : e.Quiet) : e.pending = [] := by
  unfold pending
  cases hlistener : e.changeListener with
  | none => rfl
  | some listener =>
      rw [Option.map_some, Option.getD_some, ChangeListener.pending, h listener hlistener]
      rfl

theorem mem_pending : name ∈ e.pending ↔ ∃ listener ∈ e.changeListener, name ∈ listener.pending := by
  unfold pending
  cases e.changeListener <;> simp

theorem Forgets.clearChanges_quiet (h : e.Forgets) : e.clearChanges.Quiet := by
  intro listener hlistener
  obtain ⟨known, hknown, rfl⟩ := Option.map_eq_some_iff.mp hlistener
  exact h known hknown

theorem changeListener_observed (e : Entity) :
    e.observed.changeListener = e.changeListener ∨
      (e.changeListener = none ∧ e.observed.changeListener = some .fresh) := by
  unfold observed
  split_ifs with h
  · rw [Bool.and_eq_true, Option.isNone_iff_eq_none] at h
    exact Or.inr ⟨h.2, rfl⟩
  · exact Or.inl rfl

@[simp] theorem pending_withState (e : Entity) (state : LifecycleState) :
    (e.withState state).pending = e.pending := rfl

@[simp] theorem pending_observed (e : Entity) : e.observed.pending = e.pending := by
  unfold pending
  rcases e.changeListener_observed with h | ⟨hnone, hfresh⟩
  · rw [h]
  · rw [hnone, hfresh]
    rfl

theorem Forgets.observed (h : e.Forgets) : e.observed.Forgets := by
  intro listener hlistener
  rcases e.changeListener_observed with hsame | ⟨-, hfresh⟩
  · exact h listener (hsame ▸ hlistener)
  · rw [hfresh, Option.mem_some_iff] at hlistener
    subst hlistener
    rfl

theorem changeListener_flushed (e : Entity) :
    e.flushed.changeListener = none ∨
      e.flushed.changeListener = e.changeListener.map ChangeListener.cleared := by
  unfold flushed
  cases e.state with
  | deleted => exact Or.inl rfl
  | _ => exact Or.inr rfl

end Entity

namespace Step

variable {e after : Entity} {step : Step} {name : String}

/-- Whether the alterations of entities in a step leave the change listeners alone. -/
def KeepsListeners : Step → Prop
  | .alter _ change => ∀ e : Entity, (change e).changeListener = e.changeListener
  | _ => True

/-- Whether the alterations of entities in a step make no change pending. -/
def AltersQuietly : Step → Prop
  | .alter _ change => ∀ e : Entity, ∀ name ∈ (change e).pending, name ∈ e.pending
  | _ => True

/-- Only a call of the setter of an attribute makes a change of the attribute pending. -/
theorem Makes.mem_pending (h : step.Makes id e after) (hquietly : step.AltersQuietly)
    (hname : name ∈ after.pending) :
    name ∈ e.pending ∨ ∃ setter value, step = .call id setter value ∧
      (setter.change e.object value).IsChange ∧ setter.attr = name := by
  cases h with
  | nothing => exact Or.inl hname
  | persist => exact Or.inl (by simpa using hname)
  | attach => exact Or.inl (by simpa using hname)
  | giveUp => cases hname
  | delete => exact Or.inl hname
  | alter change => exact Or.inl (hquietly e name hname)
  | flush =>
      left
      obtain ⟨listener, hlistener, hmem⟩ := Entity.mem_pending.mp hname
      rcases e.changeListener_flushed with hnone | hcleared
      · rw [hnone] at hlistener
        cases hlistener
      · rw [hcleared] at hlistener
        obtain ⟨known, hknown, rfl⟩ := Option.map_eq_some_iff.mp hlistener
        exact Entity.mem_pending.mpr ⟨known, hknown, ChangeListener.mem_pending_cleared hmem⟩
  | call setter value =>
      rw [Entity.call_fst, Entity.mem_pending] at hname
      obtain ⟨listener, hlistener, hmem⟩ := hname
      dsimp only at hlistener
      split_ifs at hlistener with hchange
      · obtain ⟨known, hknown, rfl⟩ := Option.map_eq_some_iff.mp hlistener
        rcases ChangeListener.mem_pending_notified hmem with hmem | hattr
        · exact Or.inl (Entity.mem_pending.mpr ⟨known, hknown, hmem⟩)
        · exact Or.inr ⟨setter, value, rfl, hchange.2, hattr⟩
      · exact Or.inl (Entity.mem_pending.mpr ⟨listener, hlistener, hmem⟩)

/-- No step installs a listener that cannot forget. -/
theorem Makes.forgets (h : step.Makes id e after) (hkeeps : step.KeepsListeners) (he : e.Forgets) :
    after.Forgets := by
  cases h with
  | nothing => exact he
  | persist => exact Entity.Forgets.observed he
  | attach => exact Entity.Forgets.observed he
  | giveUp =>
      intro listener hlistener
      cases hlistener
  | delete => exact he
  | alter change =>
      intro listener hlistener
      exact he listener (hkeeps e ▸ hlistener)
  | flush =>
      intro listener hlistener
      rcases e.changeListener_flushed with hnone | hcleared
      · rw [hnone] at hlistener
        cases hlistener
      · rw [hcleared] at hlistener
        obtain ⟨known, hknown, rfl⟩ := Option.map_eq_some_iff.mp hlistener
        rw [ChangeListener.cleared_cleared]
        exact he known hknown
  | call setter value =>
      rw [Entity.call_fst]
      intro listener hlistener
      dsimp only at hlistener
      split_ifs at hlistener
      · obtain ⟨known, hknown, rfl⟩ := Option.map_eq_some_iff.mp hlistener
        rw [ChangeListener.cleared_notified]
        exact he known hknown
      · exact he listener hlistener

/-- An entity without a change listener gets one only when it is tracked. -/
theorem Makes.unheard (h : step.Makes id e after) (hkeeps : step.KeepsListeners)
    (he : e.changeListener = none) :
    after.changeListener = none ∨ step = .persist id ∨ step = .attach id := by
  cases h with
  | nothing => exact Or.inl he
  | persist => exact Or.inr (Or.inl rfl)
  | attach => exact Or.inr (Or.inr rfl)
  | giveUp => exact Or.inl rfl
  | delete => exact Or.inl he
  | alter change => exact Or.inl ((hkeeps e).trans he)
  | flush =>
      left
      rcases e.changeListener_flushed with hnone | hcleared
      · exact hnone
      · rw [hcleared, he, Option.map_none]
  | call setter value =>
      left
      rw [Entity.call_fst]
      dsimp only
      rw [he, Option.map_none, ite_self]

end Step

end Chronicle
