import Chronicle.Proofs.Tracking.Pending
import Chronicle.Proofs.Transaction.Lifetime

/-!
# What a rollback leaves behind

After a unit of work was rolled back nothing that it recorded is left: not in the change listeners of the
entities that it ever tracked, not in the accumulator of its transaction, and therefore not in the events
of any later unit of work.

## Implementation notes

A rollback clears the listeners of the entities that are still tracked. Any other entity that was ever
tracked was given up or written as deleted, and lost its listener then: `Session.InReach` is kept by every
step. For the later unit of work `Session.Confined` names the attributes that its listeners and records may
mention, and every step may only add those of its own calls. Between the two units of work, and beside the
later one, others may do anything to the entities that makes no change pending: this is what alterations
of entities in a run stand for.
-/

namespace Chronicle

variable {id : EntityId}

namespace Session

variable {s : Session} {steps : List Step}

/-- Whether an entity is tracked at some moment of a run. -/
def EverTracked (s : Session) (steps : List Step) (id : EntityId) : Prop :=
  ∃ first rest, steps = first ++ rest ∧ id ∈ (s.run first).work.tracked

/-- A unit of work that is begun with the entities as they are. -/
def opening (m : Manager) (t : Transaction) (store : Store) : Session := ⟨⟨m, t, []⟩, store⟩

/-! ## Listeners -/

/-- Whether a rollback clears the change listener of an entity, if there is one. -/
def InReach (s : Session) (id : EntityId) : Prop :=
  id ∈ s.work.tracked ∨ ∀ e, s.store.get? id = some e → e.changeListener = none

/-- An entity stays in reach: no step stops tracking an entity that keeps its listener. -/
theorem InReach.step {step : Step} (hs : s.work.tracked.Nodup) (hkeeps : step.KeepsListeners)
    (h : s.InReach id) : (s.step step).InReach id := by
  rcases h with htracked | hnone
  · exact tracked_step hs htracked step
  -- Without a listener only tracking matters: it installs one, and from then on the entity is tracked.
  · by_cases hpersist : step = .persist id
    · subst hpersist
      exact Or.inl ((s.work.mem_tracked_track s.store id .new id).mpr (Or.inr rfl))
    · by_cases hattach : step = .attach id
      · subst hattach
        exact Or.inl ((s.work.mem_tracked_track s.store id .managed id).mpr (Or.inr rfl))
      · right
        intro after hafter
        obtain ⟨e, he, hmakes⟩ := makes_step hs hafter
        rcases hmakes.unheard hkeeps (hnone e he) with hafter | htrack | htrack
        · exact hafter
        · exact absurd htrack hpersist
        · exact absurd htrack hattach

theorem InReach.run (hs : s.work.tracked.Nodup) (hkeeps : ∀ step ∈ steps, step.KeepsListeners)
    (h : s.InReach id) : (s.run steps).InReach id := by
  induction steps generalizing s with
  | nil => exact h
  | cons first rest ih =>
      rw [List.forall_mem_cons] at hkeeps
      exact ih (nodup_tracked_step hs first) hkeeps.2 (h.step hs hkeeps.1)

/-- No run installs a listener that cannot forget. -/
theorem forgets_run (hs : s.work.tracked.Nodup) (hkeeps : ∀ step ∈ steps, step.KeepsListeners)
    (h : ∀ e, s.store.get? id = some e → e.Forgets) :
    ∀ e, (s.run steps).store.get? id = some e → e.Forgets := by
  induction steps generalizing s with
  | nil => exact h
  | cons first rest ih =>
      rw [List.forall_mem_cons] at hkeeps
      apply ih (nodup_tracked_step hs first) hkeeps.2
      intro after hafter
      obtain ⟨e, he, hmakes⟩ := makes_step hs hafter
      exact hmakes.forgets hkeeps.1 (h e he)

/-- After a rollback every entity that was ever tracked has no listener, or one that knows of no
changes. -/
theorem quiet_rollback (hs : s.work.tracked.Nodup)
    (hforgets : ∀ e, s.store.get? id = some e → e.Forgets)
    (hkeeps : ∀ step ∈ steps, step.KeepsListeners) (hid : s.EverTracked steps id) :
    ∀ e, ((s.run steps).work.rollback (s.run steps).store).store.get? id = some e → e.Quiet := by
  obtain ⟨first, rest, rfl, htracked⟩ := hid
  have hreach : (s.run (first ++ rest)).InReach id := by
    rw [run_append]
    exact InReach.run (nodup_tracked_run hs first)
      (fun step hstep => hkeeps step (List.mem_append_right first hstep)) (Or.inl htracked)
  intro after hafter
  rw [UnitOfWork.get?_rollback _ (nodup_tracked_run hs _)] at hafter
  split_ifs at hafter with hmem
  · obtain ⟨e, he, rfl⟩ := Option.map_eq_some_iff.mp hafter
    exact (forgets_run hs hkeeps hforgets e he).clearChanges_quiet
  · have hnone := hreach.resolve_left hmem after hafter
    intro listener hlistener
    rw [hnone] at hlistener
    cases hlistener

/-! ## The accumulator -/

/-- What a run does with its transaction: its flushes observe entities. -/
def uses (s : Session) (steps : List Step) : List Use :=
  (s.rounds steps).map fun round => .beforeFlush s.work.manager round.store round.ids

theorem transaction_step (s : Session) (step : Step) :
    (s.step step).work.transaction = s.work.transaction.useAll (s.uses [step]) := by
  by_cases hstep : step = .flush
  · subst hstep
    simp only [Session.step, UnitOfWork.flush, uses, rounds, roundOf?, round, Transaction.useAll,
      Option.toList_some, List.append_nil, List.map_singleton, List.foldl_cons, List.foldl_nil,
      Transaction.use]
    cases s.work.manager.beforeFlush s.store s.work.transaction s.work.tracked <;> rfl
  · rw [s.step_move hstep]
    cases step with
    | flush => exact absurd rfl hstep
    | _ => rfl

theorem transaction_run (s : Session) (steps : List Step) :
    (s.run steps).work.transaction = s.work.transaction.useAll (s.uses steps) := by
  induction steps generalizing s with
  | nil => rfl
  | cons first rest ih =>
      have huses : s.uses (first :: rest) = s.uses [first] ++ (s.step first).uses rest := by
        simp [uses, rounds]
      rw [run_cons, ih, huses, Transaction.useAll_append, transaction_step]

theorem uses_leave (s : Session) (steps : List Step) :
    ∀ u ∈ s.uses steps, u.LeavesAccumulator := by
  intro u hu
  obtain ⟨round, -, rfl⟩ := List.mem_map.mp hu
  exact trivial

/-- The end of a transaction with synchronization counts nothing of the unit of work. -/
theorem rollback_countsOthers {uses : List Use} (hleaves : ∀ u ∈ uses, u.LeavesAccumulator)
    (hstart : s.work.transaction = Transaction.start.useAll uses) (steps : List Step) :
    (s.run steps).work.transaction.CountsOthers
      ((s.run steps).work.rollback (s.run steps).store).completion := by
  have huses : (s.run steps).work.transaction =
      Transaction.start.useAll (uses ++ s.uses steps) := by
    rw [transaction_run, hstart, Transaction.useAll_append]
  have hall : ∀ u ∈ uses ++ s.uses steps, u.LeavesAccumulator :=
    List.forall_mem_append.mpr ⟨hleaves, s.uses_leave steps⟩
  change (s.run steps).work.transaction.CountsOthers ((s.run steps).work.transaction.complete _)
  rw [huses]
  exact Transaction.start_countsOthers hall _

end Session

/-! ## Records of updates -/

namespace ChangeRecord

variable {known : Option ChangeRecord} {later : ChangeRecord}

theorem orderly_update (h : ∀ record ∈ known, record.diff.Orderly) (hl : later.diff.Orderly) :
    (update known later).diff.Orderly := by
  cases known with
  | none => exact hl
  | some record => exact proper_merge (h record rfl) hl

/-- A record of an update is made of records of updates and of what was observed since, which is no
deletion; if it is no update either, there was an update before. -/
theorem update_updated (h : ∀ record ∈ known, record.diff.Orderly) (hl : later.diff.Orderly)
    (htype : (update known later).type = .updated) :
    later.type ≠ .deleted ∧ (later.type = .updated ∨ ∃ record ∈ known, record.type = .updated) ∧
      ∀ name ∈ (update known later).diff.topNames, name ∈ later.diff.topNames ∨
        ∃ record ∈ known, record.type = .updated ∧ name ∈ record.diff.topNames := by
  cases known with
  | none =>
      change later.type = .updated at htype
      exact ⟨by rw [htype]; exact nofun, Or.inl htype, fun name hname => Or.inl hname⟩
  | some record =>
      change (record.merge later).type = .updated at htype
      have htypes := htype
      rw [type_merge] at htypes
      split_ifs at htypes with hdeleted
      refine ⟨hdeleted, Or.inr ⟨record, rfl, htypes⟩, fun name hname => ?_⟩
      change name ∈ (record.merge later).diff.topNames at hname
      rw [diff_merge (by rw [htype]; exact nofun), Diff.mem_topNames_merge (h record rfl) hl] at hname
      exact hname.elim (fun hname => Or.inr ⟨record, rfl, htypes, hname⟩) Or.inl

end ChangeRecord

namespace Session

variable {s : Session} {steps : List Step} {allowed : String → Prop}

/-- Whether an entity of which an update was recorded is new again, with a value in an attribute, when
the tracked entities are looked at. -/
def FindsNewAgain (s : Session) (id : EntityId) (attr : String) : Prop :=
  (∃ r ∈ s.record? id, r.type = .updated) ∧ id ∈ s.work.tracked ∧
    ∃ e, s.store.get? id = some e ∧ e.state = .new ∧ attr ∈ e.object.presence.topNames

/-- Whether this happens at a flush of a run. -/
def FindsNewAgainIn (s : Session) (id : EntityId) (attr : String) (steps : List Step) : Prop :=
  ∃ first rest, steps = first ++ .flush :: rest ∧ (s.run first).FindsNewAgain id attr

/-- What the listener and the record of an entity may mention: pending changes and updates mention
nothing but what is allowed. -/
structure Confined (s : Session) (id : EntityId) (allowed : String → Prop) : Prop where
  pending : ∀ e, s.store.get? id = some e → ∀ name ∈ e.pending, allowed name
  recorded : ∀ r ∈ s.record? id,
    r.diff.Orderly ∧ (r.type = .updated → ∀ name ∈ r.diff.topNames, allowed name)

theorem Confined.mono {other : String → Prop} (h : s.Confined id allowed)
    (himp : ∀ name, allowed name → other name) : s.Confined id other where
  pending e he name hname := himp name (h.pending e he name hname)
  recorded r hr := ⟨(h.recorded r hr).1, fun htype name hname =>
    himp name ((h.recorded r hr).2 htype name hname)⟩

/-- What a step observes is pending, or the entity is new. -/
theorem observedBy?_cases {step : Step} {later : ChangeRecord}
    (h : s.observedBy? id step = some later) :
    step = .flush ∧ id ∈ s.work.tracked ∧ later.diff.Orderly ∧
      ∃ e, s.store.get? id = some e ∧
        ((later.type = .created ∧ e.state = .new ∧ later.diff = e.object.presence) ∨
          later.type = .deleted ∨
          (later.type = .updated ∧ ∀ name ∈ later.diff.topNames, name ∈ e.pending)) := by
  cases step with
  | flush =>
      change (if _ then _ else none) = some later at h
      split_ifs at h with hobserves
      obtain ⟨o, ho, rfl⟩ := Option.map_eq_some_iff.mp h
      obtain ⟨e, he, ho⟩ := Option.bind_eq_some_iff.mp ho
      refine ⟨rfl, hobserves.2, Manager.observation?_orderly ho, e, he, ?_⟩
      obtain ⟨-, ⟨hnew, htype, hdiff⟩ | ⟨-, listener, hlistener, ⟨-, htype, -⟩ |
        ⟨-, hchanges, htype, hdiff⟩⟩⟩ := Manager.observation?_cases ho
      · exact Or.inl ⟨htype, hnew, hdiff⟩
      · exact Or.inr (Or.inl htype)
      · refine Or.inr (Or.inr ⟨htype, fun name hname => ?_⟩)
        rw [hdiff, Recording.mem_topNames_diff] at hname
        refine Entity.mem_pending.mpr ⟨listener, hlistener, ?_⟩
        rwa [ChangeListener.pending, if_pos hchanges]
  | _ => cases h

/-- What a step adds to what a listener and a record may mention. -/
theorem Confined.step {step : Step} (hs : s.work.tracked.Nodup) (hquietly : step.AltersQuietly)
    (h : s.Confined id allowed) :
    (s.step step).Confined id fun name =>
      allowed name ∨ name ∈ (s.changeBy? id step).toList.map PropertyChange.property ∨
        (step = .flush ∧ s.FindsNewAgain id name) where
  pending := by
    intro after hafter name hname
    obtain ⟨e, he, hmakes⟩ := makes_step hs hafter
    rcases hmakes.mem_pending hquietly hname with hmem | ⟨setter, value, rfl, hchange, rfl⟩
    · exact Or.inl (h.pending e he name hmem)
    · right
      left
      rw [changeBy?_call he, if_pos hchange]
      exact List.mem_singleton_self _
  recorded := by
    intro r hr
    rw [Option.mem_def, record?_step hs] at hr
    cases hobserved : s.observedBy? id step with
    | none =>
        rw [hobserved] at hr
        exact ⟨(h.recorded r hr).1, fun htype name hname =>
          Or.inl ((h.recorded r hr).2 htype name hname)⟩
    | some later =>
        obtain ⟨rfl, htracked, horderly, e, he, hlater⟩ := observedBy?_cases hobserved
        rw [hobserved] at hr
        cases hr
        have hknown : ∀ record ∈ s.record? id, record.diff.Orderly :=
          fun record hrecord => (h.recorded record hrecord).1
        refine ⟨ChangeRecord.orderly_update hknown horderly, fun htype name hname => ?_⟩
        obtain ⟨hkept, hbefore, hnames⟩ := ChangeRecord.update_updated hknown horderly htype
        rcases hnames name hname with hname | ⟨record, hrecord, hupdated, hname⟩
        · rcases hlater with ⟨hcreated, hnew, hpresence⟩ | hdeleted | ⟨-, hpending⟩
          -- A creation keeps the type of the update and still adds the names of its values.
          · have hupdate := hbefore.resolve_left (by rw [hcreated]; exact nofun)
            exact Or.inr (Or.inr ⟨rfl, hupdate, htracked, e, he, hnew, hpresence ▸ hname⟩)
          · exact absurd hdeleted hkept
          · exact Or.inl (h.pending e he name (hpending name hname))
        · exact Or.inl ((h.recorded record hrecord).2 hupdated name hname)

/-- A run adds the attributes that calls of setters change in it, and those with a value in an entity
that is found new again. -/
theorem Confined.run (hs : s.work.tracked.Nodup) (hquietly : ∀ step ∈ steps, step.AltersQuietly)
    (h : s.Confined id allowed) :
    (s.run steps).Confined id fun name =>
      allowed name ∨ name ∈ (changesIn id s steps).map PropertyChange.property ∨
        s.FindsNewAgainIn id name steps := by
  induction steps generalizing s allowed with
  | nil => exact h.mono fun name hname => Or.inl hname
  | cons first rest ih =>
      rw [List.forall_mem_cons] at hquietly
      have hrest := ih (nodup_tracked_step hs first) hquietly.2 (h.step hs hquietly.1)
      apply hrest.mono
      rintro name ((hname | hname | ⟨rfl, hfound⟩) | hname | ⟨before, after, rfl, hfound⟩)
      · exact Or.inl hname
      · right
        left
        rw [changesIn, List.map_append]
        exact List.mem_append_left _ hname
      · exact Or.inr (Or.inr ⟨[], rest, rfl, hfound⟩)
      · right
        left
        rw [changesIn, List.map_append]
        exact List.mem_append_right _ hname
      · exact Or.inr (Or.inr ⟨first :: before, after, rfl, hfound⟩)

/-! ## Events -/

theorem distinct_run (h : (s.work.accumulated.map ChangeRecord.entity).Nodup) (steps : List Step) :
    ((s.run steps).work.accumulated.map ChangeRecord.entity).Nodup := by
  induction steps generalizing s with
  | nil => exact h
  | cons first rest ih =>
      apply ih
      by_cases hfirst : first = .flush
      · subst hfirst
        rw [accumulated_flush]
        split_ifs
        · exact ChangeRecord.nodup_absorbAll _ h
        · exact h
      · rwa [s.accumulated_step hfirst]

/-- An event of a commit is that of the record that one more flush would leave. -/
theorem record?_of_event (hdistinct : (s.work.accumulated.map ChangeRecord.entity).Nodup)
    {events : List Event} (h : (s.work.commit s.store).result = .ok events) {event : Event}
    (hevent : event ∈ events) :
    ∃ record ∈ (s.step .flush).record? event.source,
      event.type = record.type ∧ event.payload.diff = record.diff := by
  obtain ⟨next, records, hcollect, rfl⟩ := UnitOfWork.commit_ok h
  rcases Manager.collect_ok hcollect with ⟨-, rfl⟩ | ⟨hobserves, -, hrecords⟩
  · cases hevent
  · obtain ⟨record, hrecord, rfl⟩ := List.mem_map.mp hevent
    have hactive : s.observes = true := hobserves
    have haccumulated : (s.step .flush).work.accumulated = records := by
      rw [accumulated_flush, if_pos hactive, hrecords]
      rfl
    have hlast : ((s.step .flush).work.accumulated.map ChangeRecord.entity).Nodup :=
      distinct_run hdistinct [.flush]
    refine ⟨record, ?_, rfl, rfl⟩
    exact ChangeRecord.of?_of_mem hlast (haccumulated ▸ hrecord)

/-- Nothing is accumulated when a unit of work is begun. -/
theorem accumulated_opening {t : Transaction} (h : t.resources.accumulator = none) (m : Manager)
    (store : Store) : (opening m t store).work.accumulated = [] := by
  change t.resources.records = []
  rw [Resources.records, h]
  rfl

/-- An update in a later unit of work mentions what calls of setters change in its run, and what has a
value when an entity is found new again, if its entity had no pending changes when it was begun. -/
theorem confined_events {m : Manager} {t : Transaction} {store : Store}
    (haccumulator : t.resources.accumulator = none)
    (hquiet : ∀ e, store.get? id = some e → e.Quiet) {later : List Step}
    (hquietly : ∀ step ∈ later, step.AltersQuietly) {events : List Event}
    (hcommit : (((opening m t store).run later).work.commit
      ((opening m t store).run later).store).result = .ok events) :
    ∀ event ∈ events, event.source = id → event.type = .updated →
      ∀ attr ∈ event.payload.diff.topNames,
        attr ∈ (changesIn id (opening m t store) later).map PropertyChange.property ∨
          (opening m t store).FindsNewAgainIn id attr (later ++ [.flush]) := by
  have hempty := accumulated_opening haccumulator m store
  have hstart : (opening m t store).Confined id fun _ => False := by
    refine ⟨?_, ?_⟩
    · intro e he name hname
      rw [(hquiet e he).pending_eq_nil] at hname
      cases hname
    · intro r hr
      rw [record?, hempty] at hr
      cases hr
  have hall : ∀ step ∈ later ++ [.flush], step.AltersQuietly :=
    List.forall_mem_append.mpr ⟨hquietly, by simp [Step.AltersQuietly]⟩
  have hlast := hstart.run List.nodup_nil hall
  rintro event hevent rfl htype attr hattr
  have hdistinct : (((opening m t store).run later).work.accumulated.map
      ChangeRecord.entity).Nodup := distinct_run (by rw [hempty]; exact List.nodup_nil) later
  obtain ⟨record, hrecord, hrecordtype, hdiff⟩ := record?_of_event hdistinct hcommit hevent
  rw [run_append] at hlast
  rcases (hlast.recorded record hrecord).2 (hrecordtype ▸ htype) attr (hdiff ▸ hattr) with
    hnever | hchanged | hfound
  · exact hnever.elim
  · rw [changesIn_append] at hchanged
    exact Or.inl (by simpa [changesIn, changeBy?] using hchanged)
  · exact Or.inr hfound

end Session

/-- Nothing that a unit of work recorded is left after a rollback. Every entity that it ever tracked has no
change listener, or one that knows of no changes; the accumulator of its transaction is gone, and where
there is synchronization it is not counted at the end. A later unit of work has nothing accumulated when
it is begun, and its updates mention only what calls of setters change after the rollback and, of an
entity that is found new again after an update of it was recorded, what has a value then. -/
theorem rollback_leaves_nothing {s : Session} (hfresh : s.work.tracked = [])
    (hforgets : ∀ id e, s.store.get? id = some e → e.Forgets) {steps : List Step}
    (hkeeps : ∀ step ∈ steps, step.KeepsListeners) {ended : WorkEnd Unit}
    (hended : ended = (s.run steps).work.rollback (s.run steps).store) :
    (∀ id, s.EverTracked steps id → ∀ e, ended.store.get? id = some e → e.Quiet) ∧
      ended.completion.left.resources.accumulator = none ∧
      (∀ uses : List Use, (∀ u ∈ uses, u.LeavesAccumulator) →
        s.work.transaction = Transaction.start.useAll uses →
        (s.run steps).work.transaction.CountsOthers ended.completion) ∧
      ∀ (m : Manager) (t : Transaction), t.resources.accumulator = none →
        (Session.opening m t ended.store).work.accumulated = [] ∧
          ∀ (later : List Step), (∀ step ∈ later, step.AltersQuietly) → ∀ (events : List Event),
            (((Session.opening m t ended.store).run later).work.commit
              ((Session.opening m t ended.store).run later).store).result = .ok events →
            ∀ event ∈ events, event.type = .updated → s.EverTracked steps event.source →
              ∀ attr ∈ event.payload.diff.topNames,
                attr ∈ (Session.changesIn event.source (Session.opening m t ended.store)
                  later).map PropertyChange.property ∨
                (Session.opening m t ended.store).FindsNewAgainIn event.source attr
                  (later ++ [.flush]) := by
  subst hended
  have htracked : s.work.tracked.Nodup := hfresh ▸ List.nodup_nil
  have hquiet : ∀ id, s.EverTracked steps id → ∀ e,
      ((s.run steps).work.rollback (s.run steps).store).store.get? id = some e → e.Quiet :=
    fun id hid => Session.quiet_rollback htracked (hforgets id) hkeeps hid
  refine ⟨hquiet, rfl, ?_, ?_⟩
  · intro uses hleaves hstart
    exact Session.rollback_countsOthers hleaves hstart steps
  · intro m t haccumulator
    refine ⟨Session.accumulated_opening haccumulator m _, ?_⟩
    intro later hquietly events hcommit event hevent htype hsource
    exact Session.confined_events haccumulator (hquiet event.source hsource) hquietly hcommit
      event hevent rfl htype

namespace Sample

/-- A person who gets another creator in a unit of work that is rolled back. -/
def reverted : WorkEnd Unit :=
  ((Session.start [ann]).run recreation).work.rollback ((Session.start [ann]).run recreation).store

/-- A later unit of work. -/
def retrial : Session := .opening {} .start reverted.store

/-- What is done in it: the person gets a third creator. -/
def correction : List Step := [.attach 0, .call 0 setCreator (.scalar (.text "trent")), .flush]

theorem keepsListeners_recreation : ∀ step ∈ recreation, step.KeepsListeners := by
  simp [recreation, Step.KeepsListeners]

theorem altersQuietly_correction : ∀ step ∈ correction, step.AltersQuietly := by
  simp [correction, Step.AltersQuietly]

end Sample

open Sample in
/-- The later unit of work reports the creator, which a call has changed after the rollback. -/
theorem creator_reported_after_rollback :
    ∃ events event, ((retrial.run correction).work.commit (retrial.run correction).store).result =
        .ok events ∧ event ∈ events ∧ event.type = .updated ∧
      (∀ e, reverted.store.get? 0 = some e → e.Quiet) ∧
      ("created_by" ∈ (Session.changesIn 0 retrial correction).map PropertyChange.property ∨
        retrial.FindsNewAgainIn 0 "created_by" (correction ++ [.flush])) := by
  have hforgets : ∀ id e, (Session.start [ann]).store.get? id = some e → e.Forgets := by
    intro id e he listener hlistener
    have hann : e = ann := by
      cases id with
      | zero => exact (Option.some.inj he).symm
      | succ n => cases he
    rw [hann] at hlistener
    cases hlistener
  have htracked : (Session.start [ann]).EverTracked recreation 0 :=
    ⟨recreation, [], rfl, by decide +kernel⟩
  obtain ⟨hquiet, -, -, hlater⟩ := rollback_leaves_nothing (s := Session.start [ann]) rfl hforgets
    keepsListeners_recreation (show reverted = _ from rfl)
  have hcommit : ((retrial.run correction).work.commit (retrial.run correction).store).result =
    .ok _ := rfl
  refine ⟨_, _, hcommit, List.mem_singleton_self _, rfl, hquiet 0 htracked, ?_⟩
  exact (hlater {} .start rfl).2 correction altersQuietly_correction _ hcommit _
    (List.mem_singleton_self _) rfl htracked "created_by" (by decide +kernel)

open Sample in
/-- If the person is persisted again before the commit, the update mentions the name as well, which no
call has changed. -/
theorem name_reported_after_rollback :
    ∃ events event, (Session.start [ann]).EverTracked recreation 0 ∧
      ((retrial.run (correction ++ [.persist 0])).work.commit
        (retrial.run (correction ++ [.persist 0])).store).result = .ok events ∧
      event ∈ events ∧ event.source = 0 ∧ event.type = .updated ∧
      "name" ∈ event.payload.diff.topNames ∧
      "name" ∉ (Session.changesIn 0 retrial (correction ++ [.persist 0])).map
        PropertyChange.property := by
  have htracked : (Session.start [ann]).EverTracked recreation 0 :=
    ⟨recreation, [], rfl, by decide +kernel⟩
  refine ⟨_, _, htracked, rfl, List.mem_singleton_self _, rfl, rfl, ?_, ?_⟩ <;> decide +kernel

end Chronicle
