import Chronicle.Proofs.Tracking.Lifecycle
import Chronicle.Proofs.Tracking.Rounds

/-!
# Soft deletions

An attribute of an entity may mark it as deleted. A flush observes the entity as deleted if its state
says so, or if the attribute was null when the recording of its changes began and is not null any more,
whatever it was in between.

## Implementation notes

The decision is made from one entry of the change set and from what the attribute reads at the end. What
the entry tells about the beginning is the invariant: without an entry the attribute is null as it was
then, a plain entry holds a value that is null as the first one was, and an aggregate stands for a first
value that was an object.
-/

namespace Chronicle

variable {id : EntityId}

/-! ## Intervals -/

/-- Whether a step leaves an entity to its setters and to moves through its life cycle, and of the
setters only such that announce the marker change it, by a getter that tells whether it is null. -/
def Step.AnnouncesMarker (marker : String) (id : EntityId) : Step → Prop
  | .call other setter value => other = id → ∀ o : Object, (setter.body o value).type = o.type ∧
      (setter.attr = marker → (setter.getter o).isNull = (Entity.read o marker).isNull) ∧
      (setter.notifies = true ∧ setter.attr = marker ∨
        Entity.read (setter.body o value) marker = Entity.read o marker)
  | .persist other => other ≠ id
  | .alter other _ => other ≠ id
  | .flush => False
  | _ => True

/-- Whether a step begins to record the changes of an entity of a type anew: it attaches the entity, and
what listens already knows of no change, or it flushes the tracked entity. -/
inductive Session.Opens (s : Session) (id : EntityId) (type : EntityType) : Step → Prop where
  | attach {e : Entity} : s.store.get? id = some e → e.object.type = type → type.enhanced = true →
      (∀ listener ∈ e.changeListener, listener = .fresh) → Opens s id type (.attach id)
  | flush {e : Entity} {set : ChangeSet} : s.store.get? id = some e → e.object.type = type →
      id ∈ s.work.tracked → e.state ≠ .deleted → e.changeListener = some (.recording set) →
      Opens s id type .flush

/-! ## What an entry tells -/

namespace ChangeSet

/-- Whether the entry of an attribute tells if the attribute was null at first, given what it was at
first and what it is now. -/
def Entry.Tells (first now : Value) : Option Entry → Prop
  | none => now.isNull = first.isNull
  | some (.direct old) => old.isNull = first.isNull
  | some (.aggregate before _) => before.isNull = false ∧ first.isNull = false

/-- What a change set answers from an entry. -/
def Entry.recorded : Entry → Recorded
  | .direct old => .value old
  | .aggregate _ nested => .aggregate nested.toSource

theorem old?_recording (set : ChangeSet) (attr : String) :
    set.recording.old? attr = (set.get? attr).map Entry.recorded := by
  induction set with
  | nil => rfl
  | direct name old rest ih =>
      rw [recording, Recording.old?, get?, ih]
      split_ifs <;> rfl
  | aggregate name before nested rest _ ih =>
      rw [recording, Recording.old?, get?, ih]
      split_ifs <;> rfl

end ChangeSet

theorem Value.isNull_eq_of_same {a b : Value} (h : a.same b = true) : a.isNull = b.isNull := by
  cases a <;> cases b <;> first | rfl | simp [same] at h

theorem Value.isNull_of_isEmbedded {value : Value} (h : value.IsEmbedded) : value.isNull = false := by
  obtain ⟨type, values, rfl⟩ := h.exists_eq
  rfl

namespace ChangeSet

variable {first now : Value} {known : Option Entry}

/-- Only whether the attribute is null now matters. -/
theorem Entry.Tells.of_isNull_eq (h : Entry.Tells first now known) {new : Value}
    (hnull : now.isNull = new.isNull) : Entry.Tells first new known := by
  rcases known with _ | (old | ⟨before, inner⟩)
  · exact hnull.symm.trans h
  · exact h
  · exact h

/-- An entry tells of the beginning also after a change from what the attribute is now. -/
theorem Entry.Tells.note (h : Entry.Tells first now known) (new : Value) (nested : ChangeSet) :
    Entry.Tells first new (Entry.note known now new nested) := by
  by_cases hsame : now.same new = true
  · rw [Entry.note_of_same known hsame]
    exact h.of_isNull_eq (Value.isNull_eq_of_same hsame)
  by_cases hboth : now.IsEmbedded ∧ new.IsEmbedded
  -- Objects that replace each other leave no entry, or one of an object that was first.
  · obtain ⟨hnow, hnew⟩ := And.imp Value.isNull_of_isEmbedded Value.isNull_of_isEmbedded hboth
    rcases known with _ | (old | ⟨before, inner⟩)
    · have hfirst : first.isNull = false := h.symm.trans hnow
      rw [Entry.note_none_of_embedded hsame hboth]
      split_ifs
      · exact hnew.trans hfirst.symm
      · exact ⟨hnow, hfirst⟩
    · rw [Entry.note_direct]
      exact h
    · rw [Entry.note_aggregate_of_embedded hsame hboth]
      exact h
  -- Where one of the two is no object, the entry holds what was there first or what is there now.
  · rcases known with _ | (old | ⟨before, inner⟩)
    · rw [Entry.note_none_of_flat hsame hboth]
      exact h
    · rw [Entry.note_direct]
      exact h
    · rw [Entry.note_aggregate_of_flat hsame hboth]
      exact h.1.trans h.2.symm

theorem Entry.Tells.record {set : ChangeSet} {attr : String}
    (h : Entry.Tells first now (set.get? attr)) (new : Value) :
    Entry.Tells first new ((set.record attr now new).get? attr) := by
  rw [ChangeSet.record, get?_note, if_pos rfl]
  exact h.note new _

/-- An attribute that was null at first has a plain entry of null once it is not null any more. -/
theorem Entry.Tells.recorded_null_iff (h : Entry.Tells first now known) (hnow : now.isNull = false) :
    known.map Entry.recorded = some (.value .null) ↔ first.isNull = true := by
  rcases known with _ | (old | ⟨before, inner⟩)
  · have hfirst : first.isNull = false := h.symm.trans hnow
    simp [hfirst]
  · have hold : old.isNull = first.isNull := h
    rw [← hold]
    cases old <;> simp [Entry.recorded, Value.isNull]
  · simp [Entry.recorded, h.2]

end ChangeSet

namespace Entity

variable {type : EntityType} {marker : String} {first : Value} {e : Entity}

/-! ## Watched entities -/

/-- Whether the change listener of an entity that is not new tells if the marker was null at first. -/
structure Watched (type : EntityType) (marker : String) (first : Value) (e : Entity) : Prop where
  type_eq : e.object.type = type
  state : e.state ≠ .new
  listener : ∃ set, e.changeListener = some (.recording set) ∧
    ChangeSet.Entry.Tells first (read e.object marker) (set.get? marker)

theorem read_eq_get? (o : Object) {name : String} (h : (o.type.property? name).isSome = true) :
    (o.get? name).getD .null = read o name := by
  rw [Object.get?, Value.propertyOf?, if_pos h]
  rfl

theorem observed_of_isSome (h : e.changeListener.isSome = true) : e.observed = e := by
  unfold observed
  rw [if_neg]
  simp [Option.isNone_iff_eq_none, Option.isSome_iff_ne_none.mp h]

theorem Watched.withState (h : e.Watched type marker first) {state : LifecycleState}
    (hstate : state ≠ .new) : (e.withState state).Watched type marker first :=
  ⟨h.type_eq, hstate, h.listener⟩

theorem Watched.attached (h : e.Watched type marker first) :
    (e.withState .managed).observed.Watched type marker first := by
  obtain ⟨set, hset, -⟩ := h.listener
  rw [observed_of_isSome (by rw [show (e.withState .managed).changeListener = _ from hset]; rfl)]
  exact h.withState (by decide)

/-- A call of a setter keeps an entity watched: the marker stays as it is, or the listener is told. -/
theorem Watched.call (h : e.Watched type marker first) {setter : Setter} {value : Value}
    (htype : (setter.body e.object value).type = e.object.type)
    (hgetter : ∀ o : Object, setter.attr = marker →
      (setter.getter o).isNull = (read o marker).isNull)
    (hmarker : setter.notifies = true ∧ setter.attr = marker ∨
      read (setter.body e.object value) marker = read e.object marker) :
    (e.call setter value).1.Watched type marker first := by
  obtain ⟨set, hset, htells⟩ := h.listener
  rw [call_fst]
  refine ⟨htype.trans h.type_eq, h.state, ?_⟩
  dsimp only
  rw [hset]
  split_ifs with htold
  · refine ⟨_, rfl, ?_⟩
    by_cases hattr : setter.attr = marker
    · have hbefore := htells.of_isNull_eq (hgetter e.object hattr).symm
      have hafter := hgetter (setter.body e.object value) hattr
      subst hattr
      exact (hbefore.record _).of_isNull_eq hafter
    · have hread := hmarker.resolve_left fun h => hattr h.2
      rw [Setter.change, ChangeSet.record, ChangeSet.get?_note, if_neg hattr, hread]
      exact htells
  · refine ⟨set, rfl, htells.of_isNull_eq ?_⟩
    rcases hmarker with ⟨hnotifies, rfl⟩ | hread
    · have hsame : ¬ (setter.change e.object value).IsChange := fun hchange => htold ⟨hnotifies, hchange⟩
      rw [← hgetter _ rfl, ← hgetter _ rfl]
      exact Value.isNull_eq_of_same (eq_true_of_ne_false hsame)
    · rw [hread]

/-- A watched entity is deleted by its state, or by a marker that was null at first and is not null. -/
theorem Watched.isDeleted_iff (h : e.Watched type marker first) (hmarker : type.softDelete = some marker)
    (hproperty : (type.property? marker).isSome = true) {set : ChangeSet}
    (hset : e.changeListener = some (.recording set)) :
    e.isDeleted set.toSource = true ↔ e.state = .deleted ∨
      first.isNull = true ∧ (read e.object marker).isNull = false := by
  obtain ⟨known, hknown, htells⟩ := h.listener
  obtain rfl : known = set := by simpa [hset] using hknown.symm
  have hread := read_eq_get? e.object (h.type_eq ▸ hproperty)
  have hmarked : e.isMarkedDeleted known.toSource = true ↔
      first.isNull = true ∧ (read e.object marker).isNull = false := by
    have hold : known.toSource.old? marker = (known.get? marker).map ChangeSet.Entry.recorded :=
      known.old?_recording marker
    unfold isMarkedDeleted
    rw [h.type_eq, hmarker]
    simp only [hold, hread]
    constructor
    · intro hdeleted
      split at hdeleted
      · rename_i hrecorded
        have hnow := of_decide_eq_true hdeleted
        exact ⟨(htells.recorded_null_iff hnow).mp hrecorded, hnow⟩
      · cases hdeleted
    · rintro ⟨hfirst, hnow⟩
      rw [(htells.recorded_null_iff hnow).mpr hfirst]
      exact decide_eq_true hnow
  rw [isDeleted, Bool.or_eq_true, decide_eq_true_eq, hmarked]

end Entity

/-! ## Watched entities of sessions -/

namespace Session

variable {s : Session} {type : EntityType} {marker : String} {first : Value}

/-- Whether a session tracks an entity that is watched. -/
def Watches (s : Session) (id : EntityId) (type : EntityType) (marker : String) (first : Value) : Prop :=
  id ∈ s.work.tracked ∧ ∃ e, s.store.get? id = some e ∧ e.Watched type marker first

theorem Watches.modify (h : s.Watches id type marker first) {work : UnitOfWork}
    (hwork : id ∈ work.tracked) {other : EntityId} {f : Entity → Entity}
    (hf : ∀ e : Entity, other = id → e.Watched type marker first → (f e).Watched type marker first) :
    Watches ⟨work, s.store.modify other f⟩ id type marker first := by
  obtain ⟨-, e, he, hwatched⟩ := h
  refine ⟨hwork, ?_⟩
  change ∃ e, (s.store.modify other f).get? id = some e ∧ _
  rw [Store.get?_modify, he]
  split_ifs with hother
  · exact ⟨f e, rfl, hf e hother hwatched⟩
  · exact ⟨e, rfl, hwatched⟩

/-- Between flushes an entity stays watched, also if it is removed or attached again. -/
theorem Watches.step (h : s.Watches id type marker first) {step : Step}
    (hstep : step.AnnouncesMarker marker id) :
    (s.step step).Watches id type marker first := by
  have htrack : ∀ other state, id ∈ (s.work.track s.store other state).1.tracked :=
    fun other state => (s.work.mem_tracked_track s.store other state id).mpr (Or.inl h.1)
  cases step with
  | persist other => exact h.modify (htrack other .new) fun _ hother => absurd hother hstep
  | attach other => exact h.modify (htrack other .managed) fun _ _ hwatched => hwatched.attached
  | remove other =>
      simp only [Session.step, UnitOfWork.remove]
      split_ifs with huntracked hnew
      · exact h
      -- Only a new entity is given up.
      · have hother : other ≠ id := by
          rintro rfl
          obtain ⟨-, e, he, hwatched⟩ := h
          rw [UnitOfWork.isNew, he, Option.any_some, decide_eq_true_eq] at hnew
          exact hwatched.state hnew
        exact h.modify ((List.mem_erase_of_ne (Ne.symm hother)).mpr h.1)
          fun _ hsame => absurd hsame hother
      · exact h.modify h.1 fun _ _ hwatched => hwatched.withState (by decide)
  | call other setter value =>
      exact h.modify h.1 fun e hother hwatched =>
        hwatched.call (hstep hother e.object).1 (fun o => (hstep hother o).2.1)
          (hstep hother e.object).2.2
  | alter other change => exact h.modify h.1 fun _ hother => absurd hother hstep
  | flush => exact hstep.elim

theorem Watches.run (h : s.Watches id type marker first) {steps : List Step}
    (hsteps : ∀ step ∈ steps, step.AnnouncesMarker marker id) :
    (s.run steps).Watches id type marker first := by
  induction steps generalizing s with
  | nil => exact h
  | cons step rest ih =>
      rw [List.forall_mem_cons] at hsteps
      exact ih (h.step hsteps.1) hsteps.2

/-- At the beginning of an interval nothing is recorded of the marker. -/
theorem watches_of_fresh {e : Entity} (htracked : id ∈ s.work.tracked)
    (he : s.store.get? id = some e) (htype : e.object.type = type) (hstate : e.state = .managed)
    (hlistener : e.changeListener = some .fresh) :
    s.Watches id type marker (s.reads id (Entity.read · marker)) := by
  refine ⟨htracked, e, he, htype, by rw [hstate]; decide, .nil, hlistener, ?_⟩
  rw [reads_eq he]
  exact rfl

theorem Opens.watches {step : Step} (h : s.Opens id type step) (hs : s.work.tracked.Nodup)
    (hobserves : s.observes = true) (marker : String) :
    (s.step step).Watches id type marker ((s.step step).reads id (Entity.read · marker)) := by
  cases h with
  | @attach e he htype henhanced hfresh =>
      have hafter : (s.step (.attach id)).store.get? id = some (e.withState .managed).observed := by
        change (s.store.modify id _).get? id = _
        rw [Store.get?_modify, if_pos rfl, he]
        rfl
      apply watches_of_fresh ((s.work.mem_tracked_track s.store id .managed id).mpr (Or.inr rfl)) hafter
      · rw [Entity.type_observed]
        exact htype
      · rw [Entity.state_observed]
        rfl
      · have hsome := Entity.isSome_observed (e := e.withState .managed) (htype ▸ henhanced)
        rcases (e.withState .managed).changeListener_observed with hsame | ⟨-, hnew⟩
        · obtain ⟨listener, hlistener⟩ := Option.isSome_iff_exists.mp hsome
          rw [hlistener, hfresh listener (hsame.symm.trans hlistener)]
        · exact hnew
  | @flush e set he htype htracked hstate hset =>
      have hflushed : e.flushed = (e.withState .managed).clearChanges :=
        (e.flushed_cases.resolve_left fun hdeleted => hstate hdeleted.1).2
      rcases s.step_flush with ⟨hrefused, -⟩ | ⟨t, hstep, -⟩
      · rw [hobserves] at hrefused
        cases hrefused
      · rw [hstep]
        have hafter : (s.written t).store.get? id = some e.flushed := by
          change (UnitOfWork.afterFlush s.store s.work.tracked).2.get? id = _
          rw [UnitOfWork.get?_afterFlush _ hs, if_pos htracked, he]
          rfl
        have hkept : id ∈ (s.written t).work.tracked :=
          List.mem_filter.mpr ⟨htracked, by simp [he, hstate]⟩
        rw [hflushed] at hafter
        apply watches_of_fresh hkept hafter htype rfl
        change e.changeListener.map ChangeListener.cleared = some .fresh
        rw [hset]
        rfl

/-- What a flush would observe of a watched entity is a deletion if the entity is deleted. -/
theorem Watches.observed?_deleted_iff (h : s.Watches id type marker first)
    (hobserves : s.observes = true) (hsupport : s.work.manager.isDeleted = Entity.isDeleted)
    (hmarker : type.softDelete = some marker) (hproperty : (type.property? marker).isSome = true) :
    ∃ e, s.store.get? id = some e ∧ e.state ≠ .new ∧
      ((∃ r, s.observed? id = some r ∧ r.type = .deleted) ↔
        e.state = .deleted ∨ first.isNull = true ∧ (s.reads id (Entity.read · marker)).isNull = false) := by
  obtain ⟨htracked, e, he, hwatched⟩ := h
  obtain ⟨set, hset, -⟩ := hwatched.listener
  refine ⟨e, he, hwatched.state, ?_⟩
  rw [reads_eq he, ← hwatched.isDeleted_iff hmarker hproperty hset]
  unfold observed? Manager.observation?
  rw [if_pos ⟨hobserves, htracked⟩, he, Option.bind_some, if_neg hwatched.state, hset, hsupport]
  change (∃ r, Option.map _ (if e.isDeleted set.toSource = true then _ else _) = _ ∧ _) ↔ _
  by_cases hdeleted : e.isDeleted set.toSource = true
  · simp [hdeleted]
  · rw [if_neg hdeleted]
    split_ifs <;> simp [hdeleted]

end Session

/-- Soft deletions are observed exactly. Let an interval begin where an enhanced entity is attached with
nothing recorded, or is flushed, and let then only setters that announce the marker change it, while the
entity may also be removed or attached again. The next flush observes the entity as deleted
exactly if its state says so, or if the marker was null at the beginning and is not null any more. -/
theorem soft_deletion_observed {s : Session} (hnothing : s.work.tracked = [])
    (hobserves : s.observes = true) (hsupport : s.work.manager.isDeleted = Entity.isDeleted)
    {earlier : List Step} {type : EntityType} {opening : Step}
    (hopening : (s.run earlier).Opens id type opening) {marker : String}
    (hmarker : type.softDelete = some marker) (hproperty : (type.property? marker).isSome = true)
    {steps : List Step} (hsteps : ∀ step ∈ steps, step.AnnouncesMarker marker id) :
    ∃ e, ((s.run (earlier ++ [opening])).run steps).store.get? id = some e ∧ e.state ≠ .new ∧
      ((∃ r, ((s.run (earlier ++ [opening])).run steps).observed? id = some r ∧ r.type = .deleted) ↔
        e.state = .deleted ∨
          ((s.run (earlier ++ [opening])).reads id (Entity.read · marker)).isNull = true ∧
            (((s.run (earlier ++ [opening])).run steps).reads id (Entity.read · marker)).isNull = false) := by
  have hnodup : (s.run earlier).work.tracked.Nodup := by
    apply Session.nodup_tracked_run
    rw [hnothing]
    exact List.nodup_nil
  have hwatches := (hopening.watches hnodup (by simpa using hobserves) marker).run hsteps
  have hrun : s.run (earlier ++ [opening]) = (s.run earlier).step opening := by
    rw [Session.run_append]
    rfl
  rw [hrun]
  exact hwatches.observed?_deleted_iff (by simpa using hobserves) (by simpa using hsupport) hmarker
    hproperty

namespace Sample

/-- A vault that is not closed. -/
def openVault : Entity where
  object := Object.fresh vault

/-- A closure of a vault. -/
def closure (code : String) : Value :=
  ((Object.fresh datum).assign "code" (.scalar (.text code))).toValue

/-- The setter of the closure of a vault. -/
def setClosure : Setter := .assigning "set_closure" (plain "closure" (maybe (.embedded "Datum"))) true

/-- What is done to a vault that is closed in another way, opened and closed once more. -/
def closing : List Step :=
  [.call 0 setClosure (closure "east"), .call 0 setClosure (closure "west"), .call 0 setClosure .null,
    .call 0 setClosure (closure "north")]

theorem announcesMarker_closing : ∀ step ∈ closing, step.AnnouncesMarker "closure" 0 := by
  have hset : ∀ value, Step.AnnouncesMarker "closure" 0 (.call 0 setClosure value) :=
    fun _ _ _ => ⟨rfl, fun _ => rfl, Or.inl ⟨rfl, rfl⟩⟩
  simp only [closing, List.forall_mem_cons, List.not_mem_nil, false_implies, implies_true, and_true]
  exact ⟨hset _, hset _, hset _, hset _⟩

end Sample

open Sample in
/-- The same calls are a deletion of a vault that was open, and none of a vault that was closed. -/
theorem vault_deletion_observed :
    (∃ r, ((((Session.start [openVault]).run [.attach 0]).run closing).observed? 0) = some r ∧
      r.type = .deleted) ∧
    ¬ ∃ r, ((((Session.start [openVault]).run (.attach 0 :: closing ++ [.flush])).run closing).observed? 0)
      = some r ∧ r.type = .deleted := by
  have hopen : ((Session.start [openVault]).run []).Opens 0 vault (.attach 0) :=
    .attach rfl rfl rfl (by simp [openVault])
  have hclosed : ((Session.start [openVault]).run (.attach 0 :: closing)).Opens 0 vault .flush :=
    .flush rfl rfl (by decide) (by decide) rfl
  obtain ⟨e, he, -, hdeleted⟩ := soft_deletion_observed rfl rfl rfl hopen rfl rfl
    announcesMarker_closing
  obtain ⟨f, hf, -, hkept⟩ := soft_deletion_observed rfl rfl rfl hclosed rfl rfl announcesMarker_closing
  refine ⟨hdeleted.mpr (Or.inr ⟨rfl, rfl⟩), fun hobserved => ?_⟩
  cases hf
  rcases hkept.mp hobserved with hstate | ⟨hnull, -⟩
  · cases hstate
  · cases hnull

end Chronicle
