import Chronicle.Proofs.Tracking.Following
import Chronicle.Proofs.Tracking.History

/-!
# Detecting changes

A unit of work reports of a managed entity exactly the attributes whose values were changed by setters,
however the calls are spread over flushes. The old value of an attribute without embedded objects is what
its getter read before the first change in the last interval between flushes in which it was changed. This
is the value in the beginning of the interval, unless a setter of another attribute had written it before.

## Implementation notes

The events of a commit are those of the records that one more flush would leave. In an interval the change
set records the changes one after the other, so that the first one of an attribute decides its entry. After
the interval the old value is remembered, by the change set until the next flush and by the record from
there on, as long as the attribute is not changed again.
-/

namespace Chronicle

open Diff (plainOld?)

variable {w : World} {id : EntityId}

/-- Whether a value is another one or the same by the comparison of values. -/
def Value.Equals (value other : Value) : Prop := other = value ∨ value.same other = true

theorem Value.Equals.trans {a b c : Value} (ha : a.Sound w) (hb : b.Sound w) (hc : c.Sound w)
    (hab : a.Equals b) (hbc : b.Equals c) : a.Equals c := by
  rcases hab with rfl | hab
  · exact hbc
  · rcases hbc with rfl | hbc
    · exact Or.inr hab
    · exact Or.inr (Value.same_trans ha hb hc hab hbc)

namespace Session

/-- Whether each of some steps leaves what a getter of an entity reads, up to the comparison of values. -/
def ReadsSteadily (id : EntityId) (getter : Object → Value) : Session → List Step → Prop
  | _, [] => True
  | s, step :: steps =>
    (s.reads id getter).Equals ((s.step step).reads id getter) ∧
      ReadsSteadily id getter (s.step step) steps

/-- Whether a call of a setter is the first change of its attribute in the last interval of a run in which
the attribute is changed. The interval starts with the run or with a flush and contains no flush. -/
structure FirstChange (s : Session) (id : EntityId) (steps before quiet : List Step) (setter : Setter)
    (value : Value) (rest after : List Step) : Prop where
  splits : steps = before ++ quiet ++ .call id setter value :: rest ++ after
  starts : before = [] ∨ ∃ earlier, before = earlier ++ [.flush]
  moves : .flush ∉ quiet ++ rest
  unchanged : setter.attr ∉ (changesIn id (s.run before) quiet).map PropertyChange.property
  changes : ((s.run (before ++ quiet)).changeBy? id (.call id setter value)).isSome = true
  last : setter.attr ∉
    (changesIn id (s.run (before ++ quiet ++ .call id setter value :: rest)) after).map
      PropertyChange.property

end Session

namespace Session.Follows

variable {s : Session} {set : ChangeSet}

/-! ## Old values along a run -/

/-- Whether the old value of an attribute is known: as a plain one in the change set, or else in the
record. -/
def Remembers (s : Session) (id : EntityId) (set : ChangeSet) (attr : String) (old : Value) : Prop :=
  set.get? attr = some (.direct old) ∨
    set.get? attr = none ∧ ∃ r ∈ s.record? id, plainOld? r.diff.changes attr = some old.detach

theorem reads_sound (hs : s.Sound w) {getter : Object → Value}
    (hgetter : ∀ o : Object, o.Sound w id → (getter o).Sound w) : (s.reads id getter).Sound w := by
  unfold reads
  cases he : s.store.get? id with
  | none => trivial
  | some e => exact hgetter e.object (hs.entities id e he).object

/-- Steps that leave what a getter reads one by one leave it altogether. -/
theorem equals_run (hs : s.Sound w) {getter : Object → Value}
    (hgetter : ∀ o : Object, o.Sound w id → (getter o).Sound w) {steps : List Step}
    (hsteps : ∀ step ∈ steps, step.Sound w) (hsteady : ReadsSteadily id getter s steps) :
    (s.reads id getter).Equals ((s.run steps).reads id getter) := by
  induction steps generalizing s with
  | nil => exact Or.inl rfl
  | cons step rest ih =>
      rw [List.forall_mem_cons] at hsteps
      have hnext := hs.step hsteps.1
      exact hsteady.1.trans (reads_sound hs hgetter) (reads_sound hnext hgetter)
        (reads_sound (hnext.run hsteps.2) hgetter) (ih hnext hsteps.2 hsteady.2)

theorem plainOld?_update (hs : s.Sound w) (h : s.Follows w id set) (attr : String) :
    plainOld? (ChangeRecord.update (s.record? id) (set.toRecord w id)).diff.changes attr =
      (plainOld? set.recording.diff.changes attr).or
        ((s.record? id).bind fun r => plainOld? r.diff.changes attr) := by
  have hmerged := (h.update_record hs).1
  cases hknown : s.record? id with
  | none => exact (Option.or_none).symm
  | some r =>
      rw [hknown] at hmerged
      change (r.merge (set.toRecord w id)).type = _ at hmerged
      have hdiff : (r.merge (set.toRecord w id)).diff = r.diff.merge set.recording.diff :=
        ChangeRecord.diff_merge (by rw [hmerged]; exact ChangeType.noConfusion)
      change plainOld? (r.merge (set.toRecord w id)).diff.changes attr = _
      rw [hdiff, Diff.plainOld?_merge (h.sound_set hs).recording.diff_proper]
      rfl

/-- A flush leaves a known old value in the record. -/
theorem remembers_flush (hs : s.Sound w) (h : s.Follows w id set) {attr : String} {old : Value}
    (hplain : ¬ old.IsEmbedded) (hold : Remembers s id set attr old) :
    ∃ r ∈ (s.step .flush).record? id, plainOld? r.diff.changes attr = some old.detach := by
  have hrecord := (h.flush hs).2
  have hupdate := h.plainOld?_update hs attr
  rcases hold with hdirect | ⟨hnone, r, hr, hplainold⟩
  · have hempty : ¬ set.isEmpty = true := by
      intro hempty
      rw [(ChangeSet.isEmpty_iff set).mp hempty] at hdirect
      cases hdirect
    rw [if_neg hempty] at hrecord
    refine ⟨_, hrecord, ?_⟩
    rw [hupdate, ChangeSet.plainOld?_recording hdirect hplain]
    rfl
  · by_cases hempty : set.isEmpty = true
    · rw [if_pos hempty] at hrecord
      exact ⟨r, hrecord ▸ hr, hplainold⟩
    · rw [if_neg hempty] at hrecord
      refine ⟨_, hrecord, ?_⟩
      have hlater : plainOld? set.recording.diff.changes attr = none := by
        rw [← Option.not_isSome_iff_eq_none, Diff.plainOld?_isSome_iff]
        intro hmem
        have hname : attr ∈ set.recording.diff.topNames := List.mem_append_left _ hmem
        rw [ChangeSet.mem_topNames_recording] at hname
        exact (set.get?_eq_none_iff attr).mp hnone hname
      rw [hupdate, hlater, hr]
      exact hplainold

/-- A step without a change of an attribute leaves its old value known. -/
theorem remembers_step (hs : s.Sound w) (h : s.Follows w id set) {attr : String} {old : Value}
    (hplain : ¬ old.IsEmbedded) (hold : Remembers s id set attr old) {step : Step}
    (hstep : step.Sound w) (honly : step.OnlyCalls (w.entity id) id)
    (hother : ∀ change ∈ s.changeBy? id step, change.property ≠ attr) :
    ∃ next : ChangeSet, (s.step step).Follows w id next ∧ Remembers (s.step step) id next attr old := by
  by_cases hflush : step = .flush
  · subst hflush
    exact ⟨.nil, (h.flush hs).1, Or.inr ⟨rfl, h.remembers_flush hs hplain hold⟩⟩
  · refine ⟨_, h.move hs hstep honly hflush, ?_⟩
    unfold Remembers
    rw [record?_move s id hflush]
    cases hchange : s.changeBy? id step with
    | none => exact hold
    | some change =>
        have hne : change.property ≠ attr := hother change hchange
        simp only [Option.elim_some, ChangeSet.record, ChangeSet.get?_note, if_neg hne]
        exact hold

theorem remembers_run (hs : s.Sound w) (h : s.Follows w id set) {attr : String} {old : Value}
    (hplain : ¬ old.IsEmbedded) (hold : Remembers s id set attr old) {steps : List Step}
    (hsteps : ∀ step ∈ steps, step.Sound w)
    (honly : ∀ step ∈ steps, step.OnlyCalls (w.entity id) id)
    (hother : attr ∉ (changesIn id s steps).map PropertyChange.property) :
    ∃ next : ChangeSet, (s.run steps).Follows w id next ∧
      Remembers (s.run steps) id next attr old := by
  induction steps generalizing s set with
  | nil => exact ⟨set, h, hold⟩
  | cons step rest ih =>
      rw [List.forall_mem_cons] at hsteps honly
      rw [notMem_changesIn_cons] at hother
      obtain ⟨middle, hmiddle, hremembers⟩ :=
        h.remembers_step hs hplain hold hsteps.1 honly.1 hother.1
      exact ih (hs.step hsteps.1) hmiddle hremembers hsteps.2 honly.2 hother.2

/-- Between flushes the change set records the changes one after the other. -/
theorem interval (hs : s.Sound w) (h : s.Follows w id set) {steps : List Step}
    (hsteps : ∀ step ∈ steps, step.Sound w)
    (honly : ∀ step ∈ steps, step.OnlyCalls (w.entity id) id) (hmoves : .flush ∉ steps) :
    (s.run steps).Follows w id (set.recordCalls (changesIn id s steps)) := by
  induction steps generalizing s set with
  | nil => exact h
  | cons step rest ih =>
      rw [List.forall_mem_cons] at hsteps honly
      rw [List.mem_cons, not_or] at hmoves
      have hmiddle := h.move hs hsteps.1 honly.1 (Ne.symm hmoves.1)
      have hrest := ih (hs.step hsteps.1) hmiddle hsteps.2 honly.2 hmoves.2
      rw [changesIn]
      cases hchange : s.changeBy? id step with
      | none => rwa [hchange] at hrest
      | some change => rwa [hchange] at hrest

/-- At the beginning of an interval a followed entity's change set is empty. -/
theorem start_interval (hs : s.Sound w) (h : s.Follows w id .nil) {before : List Step}
    (hsteps : ∀ step ∈ before, step.Sound w)
    (honly : ∀ step ∈ before, step.OnlyCalls (w.entity id) id)
    (hstarts : before = [] ∨ ∃ earlier, before = earlier ++ [.flush]) :
    (s.run before).Follows w id .nil := by
  rcases hstarts with rfl | ⟨earlier, rfl⟩
  · exact h
  · rw [List.forall_mem_append] at hsteps honly
    obtain ⟨set, hset, -⟩ := h.run hs hsteps.1 honly.1
    rw [run_append]
    exact (hset.flush (hs.run hsteps.1)).1

/-- The changes of an interval leave the entry of an attribute with what its getter reads before the first
change of it. -/
theorem get?_changesIn {setter : Setter} {value : Value} {quiet : List Step} (rest : List Step)
    (hquiet : setter.attr ∉ (changesIn id s quiet).map PropertyChange.property)
    (hchanges : ((s.run quiet).changeBy? id (.call id setter value)).isSome = true)
    (hplain : ¬ ((s.run quiet).reads id setter.getter).IsEmbedded) :
    (ChangeSet.nil.recordCalls (changesIn id s (quiet ++ .call id setter value :: rest))).get?
      setter.attr = some (.direct ((s.run quiet).reads id setter.getter)) := by
  obtain ⟨change, hchange⟩ := Option.isSome_iff_exists.mp hchanges
  obtain ⟨_, _, e, hcall, he, rfl, hchanged⟩ := changeBy?_eq_some hchange
  cases hcall
  rw [reads_eq he] at hplain ⊢
  have hnone : ChangeSet.changesOf setter.attr (changesIn id s quiet) = [] := by
    rw [ChangeSet.changesOf, List.map_eq_nil_iff, List.filter_eq_nil_iff]
    intro change hmem hproperty
    exact hquiet (List.mem_map.mpr ⟨change, hmem, of_decide_eq_true hproperty⟩)
  have hproperty : (setter.change e.object value).property = setter.attr := rfl
  have hfirst : ChangeSet.Entry.note none (setter.getter e.object)
      (setter.getter (setter.body e.object value)) (ChangeSet.between (setter.getter e.object)
        (setter.getter (setter.body e.object value))) = some (.direct (setter.getter e.object)) :=
    ChangeSet.Entry.note_none_of_flat (Bool.eq_false_iff.mp hchanged) (fun hboth => hplain hboth.1) _
  rw [ChangeSet.get?_recordCalls, changesIn_append, ChangeSet.changesOf_append, hnone, changesIn,
    hchange, Option.toList_some, List.singleton_append, List.nil_append,
    ChangeSet.changesOf_cons_of_eq hproperty]
  exact (congrArg (ChangeSet.Entry.along · _) hfirst).trans (ChangeSet.Entry.along_direct _ _)

/-- The old value of an attribute in the record, after a run and a flush, is what its getter read before
the first change in the interval of its last change. -/
theorem first_change (hs : s.Sound w) (h : s.Follows w id .nil) {setter : Setter} {value : Value}
    {steps before quiet rest after : List Step} (hsteps : ∀ step ∈ steps, step.Sound w)
    (honly : ∀ step ∈ steps, step.OnlyCalls (w.entity id) id)
    (hfirst : s.FirstChange id steps before quiet setter value rest after)
    (hplain : ¬ ((s.run (before ++ quiet)).reads id setter.getter).IsEmbedded) :
    ∃ r ∈ ((s.run steps).step .flush).record? id,
      plainOld? r.diff.changes setter.attr =
        some ((s.run (before ++ quiet)).reads id setter.getter).detach := by
  have hend := hs.run hsteps
  obtain ⟨rfl, hstarts, hmoves, hquiet, hchanges, hlast⟩ := hfirst
  simp only [List.forall_mem_append, List.forall_mem_cons] at hsteps honly
  obtain ⟨⟨⟨hbefore, hquieted⟩, hcall, hrest⟩, hafter⟩ := hsteps
  obtain ⟨⟨⟨honlyBefore, honlyQuiet⟩, honlyCall, honlyRest⟩, honlyAfter⟩ := honly
  have hstart := h.start_interval hs hbefore honlyBefore hstarts
  rw [run_append s before quiet] at hplain ⊢
  have hset := hstart.interval (hs.run hbefore)
    (List.forall_mem_append.mpr ⟨hquieted, List.forall_mem_cons.mpr ⟨hcall, hrest⟩⟩)
    (List.forall_mem_append.mpr ⟨honlyQuiet, List.forall_mem_cons.mpr ⟨honlyCall, honlyRest⟩⟩)
    (by simpa using hmoves)
  have hdirect := get?_changesIn rest hquiet (run_append s before quiet ▸ hchanges) hplain
  rw [← run_append, ← List.append_assoc] at hset
  have hinterval : (s.run (before ++ quiet ++ .call id setter value :: rest)).Sound w := by
    refine hs.run ?_
    simp only [List.forall_mem_append, List.forall_mem_cons]
    exact ⟨⟨hbefore, hquieted⟩, hcall, hrest⟩
  obtain ⟨next, hnext, hremembers⟩ :=
    hset.remembers_run hinterval hplain (Or.inl hdirect) hafter honlyAfter hlast
  rw [← run_append] at hnext hremembers
  exact hnext.remembers_flush hend hplain hremembers

end Session.Follows

namespace Session

variable {s : Session}

/-! ## Steady getters -/

theorem reads_call {e : Entity} (he : s.store.get? id = some e) (setter : Setter) (value : Value)
    (getter : Object → Value) :
    (s.step (.call id setter value)).reads id getter = getter (setter.body e.object value) := by
  have hget : (s.step (.call id setter value)).store.get? id = some (e.call setter value).1 := by
    change (s.store.modify id _).get? id = _
    rw [Store.get?_modify, if_pos rfl, he]
    rfl
  rw [reads_eq hget, Entity.call_fst]

/-- Between flushes what a getter reads stays if it is not changed by its own setter, and other setters
leave it. -/
theorem equals_step {setter : Setter} {step : Step} (honly : step.OnlyCalls (w.entity id) id)
    (hmove : step ≠ .flush)
    (hcall : ∀ other value, step = .call id other value →
      other.attr = setter.attr ∧ other.getter = setter.getter ∨
        ∀ o : Object, setter.getter (other.body o value) = setter.getter o)
    (hother : ∀ change ∈ s.changeBy? id step, change.property ≠ setter.attr) :
    (s.reads id setter.getter).Equals ((s.step step).reads id setter.getter) := by
  have hframe : (s.step step).store.get? id = s.store.get? id →
      (s.reads id setter.getter).Equals ((s.step step).reads id setter.getter) := by
    intro hget
    left
    rw [reads, hget]
    rfl
  cases step with
  | persist other => exact hframe (Follows.get?_modify_of_ne honly _)
  | attach other => exact hframe (Follows.get?_modify_of_ne honly _)
  | alter other change => exact hframe (Follows.get?_modify_of_ne honly _)
  | flush => exact absurd rfl hmove
  | remove other =>
      apply hframe
      simp only [Session.step, UnitOfWork.remove]
      split_ifs
      · rfl
      · exact Follows.get?_modify_of_ne honly _
      · exact Follows.get?_modify_of_ne honly _
  | call entity other value =>
      by_cases hentity : entity = id
      · subst hentity
        cases he : s.store.get? entity with
        | none =>
            apply hframe
            change (s.store.modify entity _).get? entity = _
            rw [Store.get?_modify, he]
            simp
        | some e =>
            rw [reads_eq he, reads_call he]
            rcases hcall other value rfl with ⟨hattr, hgetter⟩ | hleaves
            · right
              rw [← hgetter]
              by_contra hdiffers
              refine hother (other.change e.object value) ?_ hattr
              rw [changeBy?_call he]
              exact if_pos (Bool.eq_false_iff.mpr hdiffers)
            · exact Or.inl (hleaves e.object)
      · exact hframe (Follows.get?_modify_of_ne hentity _)

/-- A getter reads steadily while its own setter changes nothing and other setters leave what it reads. -/
theorem readsSteadily_of_calls {setter : Setter} {steps : List Step}
    (honly : ∀ step ∈ steps, step.OnlyCalls (w.entity id) id) (hmoves : .flush ∉ steps)
    (hcalls : ∀ other value, .call id other value ∈ steps →
      other.attr = setter.attr ∧ other.getter = setter.getter ∨
        ∀ o : Object, setter.getter (other.body o value) = setter.getter o)
    (hother : setter.attr ∉ (changesIn id s steps).map PropertyChange.property) :
    ReadsSteadily id setter.getter s steps := by
  induction steps generalizing s with
  | nil => trivial
  | cons step rest ih =>
      rw [List.forall_mem_cons] at honly
      rw [List.mem_cons, not_or] at hmoves
      rw [notMem_changesIn_cons] at hother
      refine ⟨equals_step honly.1 (Ne.symm hmoves.1) ?_ hother.1, ?_⟩
      · rintro other value rfl
        exact hcalls other value List.mem_cons_self
      · exact ih honly.2 hmoves.2
          (fun other value hmem => hcalls other value (List.mem_cons_of_mem _ hmem)) hother.2

/-! ## The first change in the last interval -/

/-- An attribute that is changed is changed by a first call of its setter. -/
theorem exists_first {attr : String} {steps : List Step}
    (hchanged : attr ∈ (changesIn id s steps).map PropertyChange.property) :
    ∃ quiet setter value rest, steps = quiet ++ .call id setter value :: rest ∧ setter.attr = attr ∧
      attr ∉ (changesIn id s quiet).map PropertyChange.property ∧
      ((s.run quiet).changeBy? id (.call id setter value)).isSome = true := by
  induction steps generalizing s with
  | nil => cases hchanged
  | cons step rest ih =>
      by_cases hfirst : ∀ change ∈ s.changeBy? id step, change.property ≠ attr
      · have hrest : attr ∈ (changesIn id (s.step step) rest).map PropertyChange.property := by
          by_contra hnot
          exact notMem_changesIn_cons.mpr ⟨hfirst, hnot⟩ hchanged
        obtain ⟨quiet, setter, value, later, rfl, hattr, hquiet, hchange⟩ := ih hrest
        exact ⟨step :: quiet, setter, value, later, rfl, hattr,
          notMem_changesIn_cons.mpr ⟨hfirst, hquiet⟩, hchange⟩
      · push Not at hfirst
        obtain ⟨change, hchange, hproperty⟩ := hfirst
        obtain ⟨setter, value, e, rfl, -, rfl, -⟩ := changeBy?_eq_some hchange
        exact ⟨[], setter, value, rest, rfl, hproperty, List.not_mem_nil,
          Option.isSome_of_mem hchange⟩

/-- Steps end with an interval without a flush, which starts with them or after a flush. -/
theorem exists_interval (steps : List Step) :
    ∃ before interval, steps = before ++ interval ∧
      (before = [] ∨ ∃ earlier, before = earlier ++ [.flush]) ∧ .flush ∉ interval := by
  induction steps using List.reverseRecOn with
  | nil => exact ⟨[], [], rfl, Or.inl rfl, List.not_mem_nil⟩
  | append_singleton steps step ih =>
      by_cases hflush : step = .flush
      · exact ⟨steps ++ [step], [], (List.append_nil _).symm, Or.inr ⟨steps, hflush ▸ rfl⟩,
          List.not_mem_nil⟩
      · obtain ⟨before, interval, rfl, hstarts, hmoves⟩ := ih
        refine ⟨before, interval ++ [step], List.append_assoc _ _ _, hstarts, ?_⟩
        rw [List.mem_append, List.mem_singleton, not_or]
        exact ⟨hmoves, Ne.symm hflush⟩

/-- For an attribute that is changed there is a first change in the last interval in which it is. -/
theorem exists_firstChange {attr : String} {steps : List Step}
    (hchanged : attr ∈ (changesIn id s steps).map PropertyChange.property) :
    ∃ before quiet setter value rest after,
      s.FirstChange id steps before quiet setter value rest after ∧ setter.attr = attr := by
  induction steps using List.reverseRecOn with
  | nil => cases hchanged
  | append_singleton steps step ih =>
      by_cases hlast : attr ∈ (changesIn id (s.run steps) [step]).map PropertyChange.property
      · -- The last step changes the attribute, so that the last interval is the one that it ends.
        obtain ⟨before, interval, rfl, hstarts, hmoves⟩ := exists_interval steps
        have hinterval : attr ∈ (changesIn id (s.run before) (interval ++ [step])).map
            PropertyChange.property := by
          rw [changesIn_append, List.map_append, List.mem_append, ← run_append]
          exact Or.inr hlast
        obtain ⟨quiet, setter, value, rest, hsplit, rfl, hquiet, hchange⟩ := exists_first hinterval
        have hnoflush : Step.flush ∉ interval ++ [step] := by
          rw [List.mem_append, List.mem_singleton, not_or]
          refine ⟨hmoves, ?_⟩
          rintro rfl
          cases hlast
        rw [hsplit] at hnoflush
        rw [← run_append] at hchange
        refine ⟨before, quiet, setter, value, rest, [], ⟨?_, hstarts, ?_, hquiet, hchange,
          List.not_mem_nil⟩, rfl⟩
        · rw [List.append_nil, List.append_assoc, List.append_assoc, hsplit]
        · simp only [List.mem_append, List.mem_cons, not_or] at hnoflush ⊢
          exact ⟨hnoflush.1, hnoflush.2.2⟩
      · rw [changesIn_append, List.map_append, List.mem_append] at hchanged
        obtain ⟨before, quiet, setter, value, rest, after, hfirst, rfl⟩ :=
          ih (hchanged.resolve_right hlast)
        refine ⟨before, quiet, setter, value, rest, after ++ [step],
          { hfirst with splits := ?_, last := ?_ }, rfl⟩
        · rw [hfirst.splits, List.append_assoc]
        · rw [changesIn_append, ← run_append, ← hfirst.splits, List.map_append, List.mem_append, not_or]
          exact ⟨hfirst.last, hlast⟩

end Session

/-- An enhanced entity is attached, and then only setters of it that announce changes are called, while
anything may be done to other entities and everything is flushed any number of times. The commit gives an
event of the entity exactly if some call changed what its setter's getter reads. The event is an update
and mentions the attributes that were changed. For each of them there is a first change in the last
interval between flushes in which it was changed: its old value is what the getter read right before that
call, detached, unless this was an embedded object. It is the value that the getter read in the beginning
of the interval, or one that is the same, if no step in between made the getter read another one. -/
theorem commit_reports_changes {s : Session} (hs : s.Sound w) {e : Entity}
    (he : s.store.get? id = some e) (henhanced : e.object.type.enhanced = true)
    (hunobserved : e.changeListener = none) (hunrecorded : s.record? id = none)
    (henabled : s.work.manager.config.enabled = true)
    (hactive : s.work.transaction.isSynchronizationActive = true)
    (hsupport : s.work.manager.isDeleted = Entity.isDeleted) {steps : List Step}
    (hsteps : ∀ step ∈ steps, step.Sound w)
    (honly : ∀ step ∈ steps, step.OnlyCalls (w.entity id) id) :
    ∃ events : List Event,
      ((s.run (.attach id :: steps)).work.commit (s.run (.attach id :: steps)).store).result =
        .ok events ∧
      ((∃ event ∈ events, event.source = id ∧ event.payload.type = .updated) ↔
        Session.changesIn id (s.step (.attach id)) steps ≠ []) ∧
      ∀ event ∈ events, event.source = id →
        event.payload.type = .updated ∧
        (∀ attr, attr ∈ event.payload.diff.topNames ↔
          attr ∈ (Session.changesIn id (s.step (.attach id)) steps).map PropertyChange.property) ∧
        (∀ attr ∈ event.payload.diff.topNames, ∃ before quiet setter value rest after,
          (s.step (.attach id)).FirstChange id steps before quiet setter value rest after ∧
            setter.attr = attr) ∧
        ∀ before quiet setter value rest after,
          (s.step (.attach id)).FirstChange id steps before quiet setter value rest after →
          ∀ old, ((s.step (.attach id)).run (before ++ quiet)).reads id setter.getter = old →
            ¬ old.IsEmbedded →
            event.payload.diff.oldValue? setter.attr = some old.detach ∧
              (((s.step (.attach id)).run before).ReadsSteadily id setter.getter quiet →
                (((s.step (.attach id)).run before).reads id setter.getter).Equals old) := by
  have hobserves : s.observes = true := by
    simp [Session.observes, Manager.refuses, henabled, hactive]
  have hattached : (s.step (.attach id)).Sound w := hs.step trivial
  have hfollows : (s.step (.attach id)).Follows w id .nil :=
    Session.follows_attach he henhanced hunobserved hunrecorded hobserves hsupport
  obtain ⟨set, hset, hknown⟩ := hfollows.run hattached hsteps honly
  have hend := hattached.run hsteps
  have hflushed := (hset.flush hend).1
  have hnames : ∀ name,
      (∃ r ∈ (((s.step (.attach id)).run steps).step .flush).record? id,
        name ∈ r.diff.topNames) ↔
      name ∈ (Session.changesIn id (s.step (.attach id)) steps).map PropertyChange.property := by
    intro name
    have hknows := (hset.knows_flush hend name).trans (hknown name)
    have hnone : (s.step (.attach id)).record? id = none := hunrecorded
    simpa [Session.Knows, hnone, ChangeSet.names] using hknows
  have hevents : ∀ r ∈ (((s.step (.attach id)).run steps).step .flush).work.accumulated,
      r.entity = id → (((s.step (.attach id)).run steps).step .flush).record? id = some r := by
    rintro r hr rfl
    exact ChangeRecord.of?_of_mem hend.flush.distinct hr
  refine ⟨_, Session.commit_result hset.observes, ?_, ?_⟩
  · constructor
    · rintro ⟨event, hevent, hsource, -⟩
      obtain ⟨r, hr, rfl⟩ := List.mem_map.mp hevent
      have hrecord := hevents r hr hsource
      obtain ⟨name, hname⟩ := List.exists_mem_of_ne_nil _ (hflushed.record r hrecord).2
      exact fun hnil => by simpa [hnil] using (hnames name).mp ⟨r, hrecord, hname⟩
    · intro hchanges
      obtain ⟨change, hchange⟩ := List.exists_mem_of_ne_nil _ hchanges
      obtain ⟨r, hrecord, -⟩ := (hnames change.property).mpr (List.mem_map_of_mem hchange)
      obtain ⟨hmem, hentity⟩ := ChangeRecord.entity_of? hrecord
      exact ⟨_, List.mem_map_of_mem hmem, hentity, (hflushed.record r hrecord).1⟩
  · intro event hevent hsource
    obtain ⟨r, hr, rfl⟩ := List.mem_map.mp hevent
    have hrecord := hevents r hr hsource
    have htop : ∀ attr, attr ∈ r.diff.topNames ↔
        attr ∈ (Session.changesIn id (s.step (.attach id)) steps).map PropertyChange.property := by
      intro attr
      rw [← hnames attr, hrecord]
      simp
    refine ⟨(hflushed.record r hrecord).1, htop, fun attr hattr =>
      Session.exists_firstChange ((htop attr).mp hattr), ?_⟩
    rintro before quiet setter value rest after hfirst old rfl hplain
    obtain ⟨r', hr', hold⟩ := hfollows.first_change hattached hsteps honly hfirst hplain
    rw [hrecord, Option.mem_def, Option.some.injEq] at hr'
    subst hr'
    have hmem : setter.attr ∈ r.diff.changes.map Change.name :=
      (Diff.plainOld?_isSome_iff _ _).mp (by rw [hold]; rfl)
    have hdot : Dotless setter.attr :=
      Diff.Proper.legal_change (hend.flush.record? hrecord) setter.attr hmem
    refine ⟨(Diff.oldValue?_of_dotless r.diff hdot).trans hold, fun hsteady => ?_⟩
    rw [hfirst.splits] at hsteps
    simp only [List.forall_mem_append, List.forall_mem_cons] at hsteps
    obtain ⟨⟨⟨hbefore, hquiet⟩, hcall, -⟩, -⟩ := hsteps
    rw [Session.run_append]
    exact Session.Follows.equals_run (hattached.run hbefore) hcall.1.getter hquiet hsteady

namespace Sample

/-- What is done to an attached person who moves and then gets another creator. -/
def resettlement : List Step :=
  [.call 0 setAddress (addressIn "Rome"), .call 0 setCreator (.scalar (.text "mallory")), .flush]

theorem resettlement_sound : ∀ step ∈ resettlement, step.Sound world := by
  have haddress : setAddress.Sound world 0 := setters_sound setAddress_mem
  have hcreator : setCreator.Sound world 0 := setters_sound setCreator_mem
  have hfits : (addressIn "Rome").Fits setAddress.argument := rfl
  simp only [resettlement, List.forall_mem_cons, Step.Sound]
  exact ⟨⟨haddress, addressIn_sound "Rome", hfits⟩, ⟨hcreator, trivial, trivial⟩, trivial,
    fun _ hnil => absurd hnil List.not_mem_nil⟩

theorem resettlement_onlyCalls :
    ∀ step ∈ resettlement, step.OnlyCalls (world.entity 0) 0 := by
  simp [resettlement, Step.OnlyCalls, setAddress, setCreator, Setter.assigning, world, person, plain,
    readOnly]

/-- The setter of the city of a person. -/
def setCity : Setter := .assigning "set_city" (plain "city" (maybe .text)) true

/-- A setter of the name of a person that also writes a city, and announces the name alone. -/
def setNameInLyon : Setter where
  name := "set_name"
  attr := "name"
  argument := maybe .text
  body := fun o value => (o.assign "name" value).assign "city" (.scalar (.text "Lyon"))
  getter := (Entity.read · "name")

/-- What is done to an attached person who gets a name, and with it a city, and then another city. -/
def renamed : List Step :=
  [.call 0 setNameInLyon (.scalar (.text "Bob")), .call 0 setCity (.scalar (.text "Paris"))]

theorem setCity_mem : setCity ∈ setters (world.entity 0) :=
  List.mem_of_find?_eq_some (show setterNamed? (world.entity 0) "set_city" = _ from rfl)

theorem setNameInLyon_sound : setNameInLyon.Sound world 0 where
  body := by
    intro o value ho hv hfits
    have hfield : plain "name" (maybe .text) ∈ o.type.fields := by
      rw [show o.type = person from ho.1]
      decide +kernel
    have hname : (o.assign "name" value).Sound world 0 := ho.assign hfield hv hfits
    have hcity : plain "city" (maybe .text) ∈ (o.assign "name" value).type.fields := by
      rw [show (o.assign "name" value).type = person from hname.1]
      decide +kernel
    exact hname.assign hcity trivial trivial
  attr := show "name" ∈ person.fields.map Field.name by decide +kernel
  getter := fun _ ho => Entity.read_sound ho "name"
  alike := fun _ _ ho hother => Entity.read_alike ho hother "name"

end Sample

open Sample in
/-- The creator of a person who moved before is reported as it was in the beginning. -/
theorem commit_reports_creator :
    ∃ events : List Event,
      (((Session.start [ann]).run (.attach 0 :: resettlement)).work.commit
        ((Session.start [ann]).run (.attach 0 :: resettlement)).store).result = .ok events ∧
      ∃ event ∈ events, event.source = 0 ∧ event.payload.type = .updated ∧
        (∀ attr, attr ∈ event.payload.diff.topNames ↔ attr ∈ ["address", "created_by"]) ∧
        ∃ old : Value, (Value.scalar (.text "eve")).Equals old ∧
          event.payload.diff.oldValue? "created_by" = some old.detach := by
  obtain ⟨events, hcommit, hreported, hevents⟩ :=
    commit_reports_changes start_sound (show (Session.start [ann]).store.get? 0 = _ from rfl)
      rfl rfl rfl rfl rfl rfl resettlement_sound resettlement_onlyCalls
  have hchanges : Session.changesIn 0 ((Session.start [ann]).step (.attach 0)) resettlement =
      [⟨"address", .null, addressIn "Rome"⟩,
        ⟨"created_by", .scalar (.text "eve"), .scalar (.text "mallory")⟩] := rfl
  obtain ⟨event, hevent, hsource, htype⟩ :=
    hreported.mpr fun hnil => List.cons_ne_nil _ _ (hchanges.symm.trans hnil)
  obtain ⟨-, hnames, -, holds⟩ := hevents event hevent hsource
  rw [hchanges] at hnames
  have hquiet : "created_by" ∉ (Session.changesIn 0 ((Session.start [ann]).step (.attach 0))
      [.call 0 setAddress (addressIn "Rome")]).map PropertyChange.property := by
    rw [show Session.changesIn 0 _ [.call 0 setAddress (addressIn "Rome")] =
      [⟨"address", .null, addressIn "Rome"⟩] from rfl]
    decide
  obtain ⟨hold, hequals⟩ := holds [] [.call 0 setAddress (addressIn "Rome")] setCreator
    (.scalar (.text "mallory")) [] [.flush]
    ⟨rfl, Or.inl rfl, by simp, hquiet, rfl, List.not_mem_nil⟩ (.scalar (.text "eve")) rfl id
  refine ⟨events, hcommit, event, hevent, hsource, htype, hnames, _, hequals ?_, hold⟩
  have honly : ∀ step ∈ [Step.call 0 setAddress (addressIn "Rome")],
      step.OnlyCalls (world.entity 0) 0 := fun step hstep =>
    resettlement_onlyCalls step (List.mem_append_left _ hstep)
  refine Session.readsSteadily_of_calls honly (by simp) ?_ hquiet
  · rintro other value hmem
    cases List.mem_singleton.mp hmem
    exact Or.inr fun o => setters_local setAddress_mem o _ _ (by decide)

open Sample in
/-- A city that another setter wrote unannounced is taken for the one in the beginning of the interval,
in which there was none. -/
theorem unannounced_city_reported :
    (∀ step ∈ renamed, step.Sound world ∧ step.OnlyCalls (world.entity 0) 0) ∧
      .flush ∉ renamed ∧
      "city" ∈ (Session.changesIn 0 ((Session.start [ann]).step (.attach 0)) renamed).map
        PropertyChange.property ∧
      ((Session.start [ann]).step (.attach 0)).reads 0 setCity.getter = .null ∧
      ∃ event, (((Session.start [ann]).run (.attach 0 :: renamed)).work.commit
          ((Session.start [ann]).run (.attach 0 :: renamed)).store).result = .ok [event] ∧
        event.source = 0 ∧ event.payload.type = .updated ∧
        event.payload.diff.oldValue? "city" = some (Value.scalar (.text "Lyon")).detach ∧
        ¬ ∃ old : Value, Value.null.Equals old ∧
          event.payload.diff.oldValue? "city" = some old.detach := by
  have hcity : setCity.Sound world 0 := setters_sound setCity_mem
  have hsound : ∀ step ∈ renamed, step.Sound world := by
    simpa [renamed, Step.Sound, Value.Sound, Value.Fits, setNameInLyon_sound] using hcity
  have honly : ∀ step ∈ renamed, step.OnlyCalls (world.entity 0) 0 := by
    simp [renamed, Step.OnlyCalls, setNameInLyon, setCity, Setter.assigning, world, person, plain]
  refine ⟨fun step hstep => ⟨hsound step hstep, honly step hstep⟩, by simp [renamed], ?_, rfl, _,
    rfl, rfl, rfl, rfl, ?_⟩
  · rw [show Session.changesIn 0 _ renamed =
      [⟨"name", .scalar (.text "Ann"), .scalar (.text "Bob")⟩,
        ⟨"city", .scalar (.text "Lyon"), .scalar (.text "Paris")⟩] from rfl]
    decide
  · rintro ⟨old, hequals, hold⟩
    have hnull : old = .null := by
      rcases hequals with rfl | hsame
      · rfl
      · cases old <;> first | rfl | cases hsame
    subst hnull
    cases hold

end Chronicle
