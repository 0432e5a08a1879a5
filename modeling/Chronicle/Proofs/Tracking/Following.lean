import Chronicle.Proofs.Sample.World

/-!
# Following an entity

Changes of an entity are calls of its setters after which their getters read other values. While only such
setters are called of a managed entity, what is known of its changes stands in two places: in its
accumulated record and, since the last flush, in the change set of its listener.

## Implementation notes

`Session.Follows` says what holds of the two places at every moment. One lemma for each kind of step says
what becomes of them, and every statement about runs is carried by it from step to step.
-/

namespace Chronicle

variable {w : World} {id : EntityId}

/-- Whether a step leaves an entity to setters that announce changes, and the mark of its deletion
alone. -/
def Step.OnlyCalls (type : EntityType) (id : EntityId) : Step → Prop
  | .persist other => other ≠ id
  | .attach other => other ≠ id
  | .remove other => other ≠ id
  | .call other setter _ =>
    other = id → setter.notifies = true ∧ type.softDelete ≠ some setter.attr
  | .alter other _ => other ≠ id
  | .flush => True

/-- The record of an update of an entity by what a change set holds. -/
def ChangeSet.toRecord (set : ChangeSet) (w : World) (id : EntityId) : ChangeRecord :=
  ⟨id, .updated, set.recording.diff, (w.entity id).canonicalName⟩

namespace Session

/-- What a getter of an entity reads. -/
def reads (s : Session) (id : EntityId) (getter : Object → Value) : Value :=
  ((s.store.get? id).map fun e => getter e.object).getD .null

/-- The change of an entity's attribute by a step: a call of the attribute's setter after which its getter
reads another value. -/
def changeBy? (s : Session) (id : EntityId) : Step → Option PropertyChange
  | .call other setter value =>
    if other = id then
      ((s.store.get? id).map fun e => setter.change e.object value).filter (·.IsChange)
    else none
  | _ => none

/-- The changes of an entity by steps, one after another. -/
def changesIn (id : EntityId) : Session → List Step → List PropertyChange
  | _, [] => []
  | s, step :: steps => (s.changeBy? id step).toList ++ changesIn id (s.step step) steps

/-- Whether an entity is followed: it is tracked as a managed one, its listener remembers a change set
that does not touch the mark of its deletion, and its record, if there is any, is an update. -/
structure Follows (w : World) (s : Session) (id : EntityId) (set : ChangeSet) : Prop where
  entity : ∃ e : Entity, s.store.get? id = some e ∧ e.state = .managed ∧
    e.changeListener = some (.recording set)
  tracked : id ∈ s.work.tracked
  unmarked : ∀ marker ∈ (w.entity id).softDelete, marker ∉ set.names
  record : ∀ r ∈ s.record? id, r.type = .updated ∧ r.diff.topNames ≠ []
  support : s.work.manager.isDeleted = Entity.isDeleted
  observes : s.observes = true

/-- The attributes that are known to have changed: by the record and by the change set. -/
def Knows (s : Session) (id : EntityId) (set : ChangeSet) (name : String) : Prop :=
  (∃ r ∈ s.record? id, name ∈ r.diff.topNames) ∨ name ∈ set.names

theorem changeBy?_call {s : Session} {e : Entity} (he : s.store.get? id = some e) (setter : Setter)
    (value : Value) :
    s.changeBy? id (.call id setter value) =
      if (setter.change e.object value).IsChange then some (setter.change e.object value)
      else none := by
  simp only [changeBy?, if_true, he, Option.map_some, Option.filter_some, decide_eq_true_eq]

/-- Only calls of setters are changes. -/
theorem changeBy?_eq_some {s : Session} {step : Step} {change : PropertyChange}
    (hchange : s.changeBy? id step = some change) :
    ∃ (setter : Setter) (value : Value) (e : Entity), step = .call id setter value ∧
      s.store.get? id = some e ∧ change = setter.change e.object value ∧ change.IsChange := by
  cases step with
  | call other setter value =>
      simp only [changeBy?] at hchange
      split_ifs at hchange with hother
      subst hother
      obtain ⟨hmap, hchanged⟩ := Option.filter_eq_some_iff.mp hchange
      obtain ⟨e, he, rfl⟩ := Option.map_eq_some_iff.mp hmap
      exact ⟨setter, value, e, rfl, he, rfl, of_decide_eq_true hchanged⟩
  | _ => cases hchange

theorem notMem_changesIn_cons {s : Session} {attr : String} {step : Step} {steps : List Step} :
    attr ∉ (changesIn id s (step :: steps)).map PropertyChange.property ↔
      (∀ change ∈ s.changeBy? id step, change.property ≠ attr) ∧
        attr ∉ (changesIn id (s.step step) steps).map PropertyChange.property := by
  cases hchange : s.changeBy? id step <;> simp [changesIn, hchange, eq_comm]

theorem changesIn_append (id : EntityId) (s : Session) (steps later : List Step) :
    changesIn id s (steps ++ later) = changesIn id s steps ++ changesIn id (s.run steps) later := by
  induction steps generalizing s with
  | nil => rfl
  | cons step rest ih =>
      rw [List.cons_append, changesIn, ih, changesIn, List.append_assoc, run_cons]

end Session

theorem Recording.old?_eq_none {r : Recording} {attr : String} (h : attr ∉ r.names) :
    r.old? attr = none := by
  induction r with
  | nil => rfl
  | bare name rest ih =>
      rw [names, List.mem_cons, not_or] at h
      rw [old?, if_neg (Ne.symm h.1)]
      exact ih h.2
  | value name old rest ih =>
      rw [names, List.mem_cons, not_or] at h
      rw [old?, if_neg (Ne.symm h.1)]
      exact ih h.2
  | aggregate name hasChanges nested rest _ ih =>
      rw [names, List.mem_cons, not_or] at h
      rw [old?, if_neg (Ne.symm h.1)]
      exact ih h.2

namespace Session.Follows

variable {s : Session} {set : ChangeSet}

/-! ## Single steps -/

/-- What is observed about a followed entity is what its change set holds. -/
theorem observed?_eq (hs : s.Sound w) (h : s.Follows w id set) :
    s.observed? id = if set.isEmpty then none else some (set.toRecord w id) := by
  obtain ⟨e, he, hstate, hlistener⟩ := h.entity
  have htype : e.object.type = w.entity id := (hs.entities id e he).object.1
  have hdeleted : e.isDeleted set.toSource = false := by
    have hmarked : e.isMarkedDeleted set.toSource = false := by
      unfold Entity.isMarkedDeleted
      rw [htype]
      cases hmarker : (w.entity id).softDelete with
      | none => rfl
      | some marker =>
          have hnames : marker ∉ set.recording.names := by
            rw [ChangeSet.names_recording]
            exact h.unmarked marker hmarker
          have hold : set.toSource.old? marker = none := Recording.old?_eq_none hnames
          simp only [hold]
    rw [Entity.isDeleted, hmarked, hstate]
    rfl
  unfold observed? Manager.observation?
  rw [if_pos ⟨h.observes, h.tracked⟩, he, Option.bind_some, h.support, hlistener, hstate]
  simp only [reduceCtorEq, if_false, ChangeListener.source, hdeleted, Bool.false_eq_true, htype]
  rw [ChangeSet.toSource]
  cases set.isEmpty <;> rfl

theorem record?_move (s : Session) (id : EntityId) {step : Step} (hmove : step ≠ .flush) :
    (s.step step).record? id = s.record? id := by
  unfold record?
  rw [s.accumulated_step hmove]

/-- A step that leaves an entity alone leaves all that is known of its changes. -/
theorem frame (h : s.Follows w id set) {step : Step} (hmove : step ≠ .flush)
    (hget : (s.step step).store.get? id = s.store.get? id)
    (htracked : id ∈ (s.step step).work.tracked) : (s.step step).Follows w id set where
  entity := by
    rw [hget]
    exact h.entity
  tracked := htracked
  unmarked := h.unmarked
  record := by
    rw [record?_move s id hmove]
    exact h.record
  support := by
    rw [manager_step]
    exact h.support
  observes := by
    rw [observes_step]
    exact h.observes

theorem get?_modify_of_ne {other : EntityId} (h : other ≠ id) (f : Entity → Entity) :
    (s.store.modify other f).get? id = s.store.get? id := by
  rw [Store.get?_modify, if_neg h]

/-- A call of a setter of a followed entity is recorded if it is a change. -/
theorem call (hs : s.Sound w) (h : s.Follows w id set) {setter : Setter} {value : Value}
    (hstep : (Step.call id setter value).Sound w) (hnotifies : setter.notifies = true)
    (hmark : (w.entity id).softDelete ≠ some setter.attr) :
    (s.step (.call id setter value)).Follows w id
      ((s.changeBy? id (.call id setter value)).elim set fun change =>
        set.record change.property change.old change.new) := by
  obtain ⟨e, he, hstate, hlistener⟩ := h.entity
  have hbefore := (hs.entities id e he).object
  have hafter := hstep.1.body e.object value hbefore hstep.2.1 hstep.2.2
  have hget : (s.step (.call id setter value)).store.get? id = some (e.call setter value).1 := by
    change (s.store.modify id _).get? id = _
    rw [Store.get?_modify, if_pos rfl, he]
    rfl
  rw [changeBy?_call he]
  by_cases hchanged : (setter.change e.object value).IsChange
  · rw [if_pos hchanged]
    refine ⟨⟨_, hget, ?_, ?_⟩, h.tracked, ?_, h.record, h.support, h.observes⟩
    · rw [Entity.call_fst]
      exact hstate
    · rw [Entity.call_fst]
      simp only [hnotifies, hchanged, and_self, if_true, hlistener]
      rfl
    · intro marker hmarker hmem
      have hnames := (set.mem_names_record setter.attr (hstep.1.getter _ hbefore)
        (hstep.1.getter _ hafter) (hstep.1.alike _ _ hbefore hafter) marker).mp hmem
      rcases hnames with hmem | ⟨hattr, -⟩
      · exact h.unmarked marker hmarker hmem
      · exact hmark (hattr ▸ hmarker)
  · rw [if_neg hchanged]
    refine ⟨⟨_, hget, ?_, ?_⟩, h.tracked, h.unmarked, h.record, h.support, h.observes⟩
    · rw [Entity.call_fst]
      exact hstate
    · rw [Entity.call_fst]
      simp only [hchanged, and_false, if_false, hlistener]
      rfl

/-- Between flushes a followed entity's change set records every change of the entity. -/
theorem move (hs : s.Sound w) (h : s.Follows w id set) {step : Step} (hstep : step.Sound w)
    (honly : step.OnlyCalls (w.entity id) id) (hmove : step ≠ .flush) :
    (s.step step).Follows w id
      ((s.changeBy? id step).elim set fun change =>
        set.record change.property change.old change.new) := by
  have htrack : ∀ other state, id ∈ (s.work.track s.store other state).1.tracked :=
    fun other state => (s.work.mem_tracked_track s.store other state id).mpr (Or.inl h.tracked)
  cases step with
  | persist other => exact h.frame hmove (get?_modify_of_ne honly _) (htrack other .new)
  | attach other =>
      exact h.frame hmove (get?_modify_of_ne honly _) (htrack other .managed)
  | alter other change => exact h.frame hmove (get?_modify_of_ne honly _) h.tracked
  | flush => exact absurd rfl hmove
  | remove other =>
      have hremove : (s.step (.remove other)).store.get? id = s.store.get? id ∧
          id ∈ (s.step (.remove other)).work.tracked := by
        simp only [Session.step, UnitOfWork.remove]
        split_ifs
        · exact ⟨rfl, h.tracked⟩
        · exact ⟨get?_modify_of_ne honly _, (List.mem_erase_of_ne (Ne.symm honly)).mpr h.tracked⟩
        · exact ⟨get?_modify_of_ne honly _, h.tracked⟩
      exact h.frame hmove hremove.1 hremove.2
  | call other setter value =>
      by_cases hother : other = id
      · subst hother
        obtain ⟨hnotifies, hmark⟩ := honly rfl
        exact h.call hs hstep hnotifies hmark
      · have hnone : s.changeBy? id (.call other setter value) = none := if_neg hother
        rw [hnone]
        exact h.frame hmove (get?_modify_of_ne hother _) h.tracked

theorem sound_set (hs : s.Sound w) (h : s.Follows w id set) : set.Sound w := by
  obtain ⟨e, he, -, hlistener⟩ := h.entity
  exact (hs.entities id e he).listener _ hlistener

/-- The record of a followed entity stays an update and mentions what the change set mentions. -/
theorem update_record (hs : s.Sound w) (h : s.Follows w id set) :
    (ChangeRecord.update (s.record? id) (set.toRecord w id)).type = .updated ∧
      ∀ name, name ∈ (ChangeRecord.update (s.record? id) (set.toRecord w id)).diff.topNames ↔
        s.Knows id set name := by
  have hlater : (set.toRecord w id).diff.Proper Dotless :=
    (h.sound_set hs).recording.diff_proper
  have hnames : ∀ name, name ∈ (set.toRecord w id).diff.topNames ↔ name ∈ set.names := by
    intro name
    rw [ChangeSet.toRecord, ChangeSet.mem_topNames_recording]
  unfold Knows
  cases hrecord : s.record? id with
  | none =>
      refine ⟨rfl, fun name => ?_⟩
      change name ∈ (set.toRecord w id).diff.topNames ↔ _
      simp [hnames]
  | some r =>
      have hr : r.type = .updated := (h.record r hrecord).1
      have hmerged : (r.merge (set.toRecord w id)).type = .updated := by
        simp [ChangeRecord.merge, ChangeSet.toRecord, hr]
      refine ⟨hmerged, fun name => ?_⟩
      change name ∈ (r.merge (set.toRecord w id)).diff.topNames ↔ _
      rw [ChangeRecord.diff_merge (by rw [hmerged]; exact ChangeType.noConfusion),
        Diff.mem_topNames_merge (hs.record? hrecord) hlater, hnames]
      simp

/-- A flush moves what the change set of a followed entity holds into the record. -/
theorem flush (hs : s.Sound w) (h : s.Follows w id set) :
    (s.step .flush).Follows w id .nil ∧
      (s.step .flush).record? id =
        if set.isEmpty then s.record? id
        else some (ChangeRecord.update (s.record? id) (set.toRecord w id)) := by
  have hrecord : (s.step .flush).record? id =
      if set.isEmpty then s.record? id
      else some (ChangeRecord.update (s.record? id) (set.toRecord w id)) := by
    rw [record?_step hs.tracked]
    change (s.observed? id).elim _ _ = _
    rw [h.observed?_eq hs]
    cases set.isEmpty <;> rfl
  refine ⟨?_, hrecord⟩
  obtain ⟨e, he, hstate, hlistener⟩ := h.entity
  rcases s.step_flush with ⟨hobserves, -⟩ | ⟨t, hstep, -, -⟩
  · rw [h.observes] at hobserves
    cases hobserves
  · have hget : (s.step .flush).store.get? id = some e.flushed := by
      rw [hstep]
      change (UnitOfWork.afterFlush s.store s.work.tracked).2.get? id = _
      rw [UnitOfWork.get?_afterFlush _ hs.tracked, if_pos h.tracked, he]
      rfl
    refine ⟨⟨_, hget, ?_, ?_⟩, ?_, fun _ _ => List.not_mem_nil, ?_, ?_, ?_⟩
    · rw [Entity.flushed, hstate]
      exact hstate
    · rw [Entity.flushed, hstate]
      change e.changeListener.map ChangeListener.cleared = _
      rw [hlistener]
      rfl
    · rw [hstep]
      change id ∈ s.work.tracked.filter _
      refine List.mem_filter.mpr ⟨h.tracked, ?_⟩
      simp [he, hstate]
    · rw [hrecord]
      intro r hr
      split_ifs at hr with hempty
      · exact h.record r hr
      · cases hr
        obtain ⟨htype, hnames⟩ := h.update_record hs
        obtain ⟨name, hname⟩ := ChangeSet.exists_mem_names hempty
        exact ⟨htype, List.ne_nil_of_mem ((hnames name).mpr (Or.inr hname))⟩
    · rw [manager_step]
      exact h.support
    · rw [observes_step]
      exact h.observes

theorem mem_names_change (hs : s.Sound w) (set : ChangeSet) {step : Step}
    (hstep : step.Sound w) {change : PropertyChange} (hchange : s.changeBy? id step = some change)
    (name : String) :
    name ∈ (set.record change.property change.old change.new).names ↔
      name ∈ set.names ∨ change.property = name := by
  obtain ⟨setter, value, e, rfl, he, rfl, hchanged⟩ := changeBy?_eq_some hchange
  have hbefore := (hs.entities id e he).object
  have hafter := hstep.1.body e.object value hbefore hstep.2.1 hstep.2.2
  have hnames := set.mem_names_record setter.attr (hstep.1.getter _ hbefore)
    (hstep.1.getter _ hafter) (hstep.1.alike _ _ hbefore hafter) name
  refine hnames.trans (or_congr_right ?_)
  exact and_iff_left hchanged

/-! ## Names along a run -/

theorem knows_flush (hs : s.Sound w) (h : s.Follows w id set) (name : String) :
    (s.step .flush).Knows id .nil name ↔ s.Knows id set name := by
  have hrecord := (h.flush hs).2
  by_cases hempty : set.isEmpty = true
  · have hset := (ChangeSet.isEmpty_iff set).mp hempty
    subst hset
    unfold Knows
    rw [hrecord, if_pos hempty]
  · rw [← (h.update_record hs).2 name]
    unfold Knows
    rw [hrecord, if_neg hempty]
    simp [ChangeSet.names]

/-- After a step exactly the attribute that was changed in it is known to have changed besides. -/
theorem step (hs : s.Sound w) (h : s.Follows w id set) {step : Step} (hstep : step.Sound w)
    (honly : step.OnlyCalls (w.entity id) id) :
    ∃ next : ChangeSet, (s.step step).Follows w id next ∧
      ∀ name, (s.step step).Knows id next name ↔
        s.Knows id set name ∨ ∃ change ∈ s.changeBy? id step, change.property = name := by
  by_cases hflush : step = .flush
  · subst hflush
    refine ⟨.nil, (h.flush hs).1, fun name => ?_⟩
    have hnone : s.changeBy? id .flush = none := rfl
    rw [h.knows_flush hs, hnone]
    simp
  · refine ⟨_, h.move hs hstep honly hflush, fun name => ?_⟩
    unfold Knows
    rw [record?_move s id hflush]
    cases hchange : s.changeBy? id step with
    | none => simp
    | some change =>
        have hnames := mem_names_change hs set hstep hchange name
        simp only [Option.elim_some, hnames, Option.mem_def, Option.some.injEq, exists_eq_left']
        exact or_assoc.symm

/-- After a run exactly the attributes that were changed in it are known to have changed besides. -/
theorem run (hs : s.Sound w) (h : s.Follows w id set) {steps : List Step}
    (hsteps : ∀ step ∈ steps, step.Sound w)
    (honly : ∀ step ∈ steps, step.OnlyCalls (w.entity id) id) :
    ∃ next : ChangeSet, (s.run steps).Follows w id next ∧
      ∀ name, (s.run steps).Knows id next name ↔
        s.Knows id set name ∨ name ∈ (changesIn id s steps).map PropertyChange.property := by
  induction steps generalizing s set with
  | nil => exact ⟨set, h, by simp [changesIn]⟩
  | cons step rest ih =>
      rw [List.forall_mem_cons] at hsteps honly
      obtain ⟨middle, hmiddle, hknows⟩ := h.step hs hsteps.1 honly.1
      obtain ⟨next, hnext, hrest⟩ := ih (hs.step hsteps.1) hmiddle hsteps.2 honly.2
      refine ⟨next, hnext, fun name => ?_⟩
      rw [run_cons, hrest, hknows, changesIn, List.map_append, List.mem_append, or_assoc]
      simp

end Session.Follows

namespace Session

variable {s : Session}

/-- An enhanced entity without a listener that was not observed before is followed once it is attached. -/
theorem follows_attach {e : Entity} (he : s.store.get? id = some e)
    (henhanced : e.object.type.enhanced = true) (hunobserved : e.changeListener = none)
    (hunrecorded : s.record? id = none) (hobserves : s.observes = true)
    (hsupport : s.work.manager.isDeleted = Entity.isDeleted) :
    (s.step (.attach id)).Follows w id .nil where
  entity := by
    refine ⟨(e.withState .managed).observed, ?_, ?_, ?_⟩
    · change (s.store.modify id _).get? id = _
      rw [Store.get?_modify, if_pos rfl, he]
      rfl
    · unfold Entity.observed
      split_ifs <;> rfl
    · simp [Entity.observed, Entity.withState, henhanced, hunobserved, ChangeListener.fresh]
  tracked := by
    change id ∈ if s.work.tracked.contains id then s.work.tracked else s.work.tracked ++ [id]
    split_ifs with hmem
    · exact List.contains_iff_mem.mp hmem
    · exact List.mem_append_right _ (List.mem_singleton_self id)
  unmarked := fun _ _ => List.not_mem_nil
  record := by
    intro r hr
    have hnone : (s.step (.attach id)).record? id = none := hunrecorded
    rw [hnone] at hr
    cases hr
  support := hsupport
  observes := by
    rw [observes_step]
    exact hobserves

theorem reads_eq {e : Entity} (he : s.store.get? id = some e) (getter : Object → Value) :
    s.reads id getter = getter e.object := by
  rw [reads, he]
  rfl

end Session

end Chronicle
