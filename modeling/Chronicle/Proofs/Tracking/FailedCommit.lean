import Chronicle.Proofs.Tracking.Effects
import Chronicle.Proofs.Tracking.Rollback
import Chronicle.Proofs.Transaction.Completion

/-!
# What a failed commit leaves behind

A commit that is refused ends its transaction as a rollback does, and leaves every entity as a rollback
leaves it but for its change listener, which is not cleared. So what was pending when the commit failed
is still pending, and the next unit of work that tracks the entity reports it.

## Implementation notes

The entities that a rollback clears are those that are still tracked, and any other entity that was ever
tracked has lost its listener, so the two ends differ exactly at tracked entities with pending changes.
That a later unit of work reports nothing of the failed one is one property of the entities that were
left, `Session.NothingLeft`; where it fails, the unit of work that shows it only attaches the entity.
-/

namespace Chronicle

variable {id : EntityId}

/-! ## Quiet entities -/

namespace ChangeListener

variable {listener : ChangeListener}

/-- To clear a listener that can forget changes nothing exactly if it knows of no changes. -/
theorem cleared_eq_iff (h : listener.cleared.source.hasChanges = false) :
    listener.cleared = listener ↔ listener.source.hasChanges = false := by
  cases listener with
  | recording changes =>
      cases changes with
      | nil => exact iff_of_true rfl rfl
      | direct name old rest => exact iff_of_false (by simp [cleared]) (Bool.eq_not.mp rfl)
      | aggregate name before nested rest =>
          exact iff_of_false (by simp [cleared]) (Bool.eq_not.mp rfl)
  | fixed source => exact iff_of_true rfl h

/-- A listener that can forget has something to report if it knows of changes. -/
theorem exists_mem_pending (h : listener.cleared.source.hasChanges = false)
    (hchanges : listener.source.hasChanges = true) : ∃ name, name ∈ listener.pending := by
  cases listener with
  | recording changes =>
      rw [pending_recording]
      cases changes with
      | nil => cases hchanges
      | direct name old rest => exact ⟨name, List.mem_cons_self⟩
      | aggregate name before nested rest => exact ⟨name, List.mem_cons_self⟩
  | fixed source => exact absurd (h.symm.trans hchanges) (by decide)

end ChangeListener

namespace Entity

variable {e : Entity}

/-- To clear the listener of an entity changes nothing exactly if the listener knows of no changes. -/
theorem Forgets.clearChanges_eq_iff (h : e.Forgets) : e.clearChanges = e ↔ e.Quiet := by
  obtain ⟨object, state, listeners, changeListener⟩ := e
  cases changeListener with
  | none => exact iff_of_true rfl (by simp [Quiet])
  | some listener =>
      have hlistener := ChangeListener.cleared_eq_iff (h listener rfl)
      simpa [clearChanges, Quiet] using hlistener

end Entity

namespace Session

variable {s : Session} {steps : List Step} {store : Store} {e : Entity}

/-! ## What a later unit of work reports -/

/-- Whether no later unit of work reports a change of an entity that was recorded before it was begun:
its updates mention only what calls of setters change in it, and what has a value in an entity that is
found new again after an update of it was recorded. -/
def NothingLeft (id : EntityId) (store : Store) : Prop :=
  ∀ (m : Manager) (t : Transaction), t.resources.accumulator = none →
    ∀ later : List Step, (∀ step ∈ later, step.AltersQuietly) → ∀ events : List Event,
      (((opening m t store).run later).work.commit ((opening m t store).run later).store).result =
        .ok events →
      ∀ event ∈ events, event.source = id → event.type = .updated →
        ∀ attr ∈ event.payload.diff.topNames,
          attr ∈ (changesIn id (opening m t store) later).map PropertyChange.property ∨
            (opening m t store).FindsNewAgainIn id attr (later ++ [.flush])

/-- A manager for which nothing is ever deleted. -/
def keeping : Manager := { isDeleted := fun _ _ => false }

/-- A unit of work in which an entity is attached and nothing else is done. -/
def attached (id : EntityId) (store : Store) : Session := (opening keeping .start store).run [.attach id]

/-- A unit of work that attaches an entity with changes reports them and nothing else. -/
theorem commit_attached (he : store.get? id = some e) {listener : ChangeListener}
    (hlistener : e.changeListener = some listener) (hchanges : listener.source.hasChanges = true) :
    ∃ event, ((attached id store).work.commit (attached id store).store).result = .ok [event] ∧
      event.source = id ∧ event.type = .updated ∧
      event.payload.diff = listener.source.recording.diff := by
  have hheard : ((e.withState .managed).observed).changeListener = some listener := by
    rcases (e.withState .managed).changeListener_observed with hsame | ⟨hnone, -⟩
    · exact hsame.trans hlistener
    · exact absurd (hlistener.symm.trans hnone) (Option.some_ne_none listener)
  have hmanaged : (e.withState .managed).observed.state ≠ .new := by
    unfold Entity.observed
    split_ifs <;> exact nofun
  have hget : (attached id store).store.get? id = some (e.withState .managed).observed := by
    change (store.modify id _).get? id = _
    rw [Store.get?_modify, if_pos rfl, he, Option.map_some]
  obtain ⟨o, ho, htype, hdiff⟩ : ∃ o, keeping.observation? id (e.withState .managed).observed = some o ∧
      o.record.type = .updated ∧ o.record.diff = listener.source.recording.diff := by
    unfold Manager.observation?
    simp only [if_neg hmanaged, hheard, keeping, Bool.false_eq_true, if_false, if_pos hchanges]
    exact ⟨_, rfl, rfl, rfl⟩
  have hpending : (attached id store).pending = [o.record] := by
    change ChangeRecord.absorbAll [] (([id].filterMap fun id =>
      ((attached id store).store.get? id).bind (keeping.observation? id)).map Observation.record) = _
    rw [List.filterMap_cons, hget, Option.bind_some, ho]
    rfl
  have hobserves : (attached id store).observes = true := rfl
  have hresult := commit_result hobserves
  rw [accumulated_flush, if_pos hobserves, hpending, List.map_singleton] at hresult
  exact ⟨_, hresult, Manager.observation?_entity ho, htype, hdiff⟩

/-- An entity that is attached first is not found new again: no update of it was recorded before. -/
theorem not_findsNewAgainIn_attached (id : EntityId) (store : Store) (attr : String) :
    ¬(opening keeping .start store).FindsNewAgainIn id attr ([.attach id] ++ [.flush]) := by
  rintro ⟨first, rest, hsteps, ⟨r, hr, -⟩, -⟩
  have hfirst : first = [.attach id] := by
    rcases first with _ | ⟨step, _ | ⟨other, first⟩⟩
    · simp at hsteps
    · simp only [List.cons_append, List.nil_append, List.cons.injEq] at hsteps
      rw [hsteps.1]
    · simp at hsteps
  have hnone : ((opening keeping .start store).run first).work.accumulated = [] := by
    have hmove : Step.attach id ≠ .flush := nofun
    rw [hfirst]
    exact (accumulated_step _ hmove).trans (accumulated_opening (t := .start) rfl keeping store)
  rw [record?, hnone] at hr
  cases hr

/-- Nothing of the failed unit of work is left in an entity exactly if its listener knows of no changes. -/
theorem nothingLeft_iff_quiet (he : store.get? id = some e) (hforgets : e.Forgets) :
    NothingLeft id store ↔ e.Quiet := by
  constructor
  · intro hnothing listener hlistener
    by_contra hloud
    have hchanges : listener.source.hasChanges = true := (Bool.not_eq_false _).mp hloud
    obtain ⟨event, hcommit, hsource, htype, hdiff⟩ := commit_attached he hlistener hchanges
    obtain ⟨name, hname⟩ := ChangeListener.exists_mem_pending (hforgets listener hlistener) hchanges
    have hattr : name ∈ event.payload.diff.topNames := by
      rw [hdiff, Recording.mem_topNames_diff]
      rwa [ChangeListener.pending, if_pos hchanges] at hname
    rcases hnothing keeping .start rfl [.attach id] (by simp [Step.AltersQuietly]) [event] hcommit
      event (List.mem_singleton_self event) hsource htype name hattr with hchanged | hfound
    · cases hchanged
    · exact not_findsNewAgainIn_attached id store name hfound
  · intro hquiet m t haccumulator later hquietly events hcommit event hevent hsource htype attr hattr
    refine confined_events haccumulator (fun other hother => ?_) hquietly hcommit event hevent hsource
      htype attr hattr
    rw [Option.some.inj (hother.symm.trans he)]
    exact hquiet

/-! ## The two ends -/

/-- What a rollback leaves of an entity is what a failed commit leaves, exactly if its listener knows of no
changes: nobody but the rollback clears it. -/
theorem get?_rollback_eq_iff (hs : s.work.tracked.Nodup)
    (hforgets : ∀ e, s.store.get? id = some e → e.Forgets)
    (hkeeps : ∀ step ∈ steps, step.KeepsListeners) (hid : s.EverTracked steps id)
    (he : (s.run steps).store.get? id = some e) :
    ((s.run steps).work.rollback (s.run steps).store).store.get? id = some e ↔ e.Quiet := by
  have hafter := UnitOfWork.get?_rollback (s.run steps).store (nodup_tracked_run hs steps) id
  constructor
  · exact fun hsame => quiet_rollback hs hforgets hkeeps hid e hsame
  · intro hquiet
    rw [hafter, he, Option.map_some,
      (forgets_run hs hkeeps hforgets e he).clearChanges_eq_iff.mpr hquiet, ite_self]

end Session

namespace UnitOfWork

/-- A refused commit leaves the entities alone and ends the transaction as a rollback does. -/
theorem commit_error {u : UnitOfWork} {store : Store} {refusal : TransactionRequired}
    (h : (u.commit store).result = .error refusal) :
    u.commit store = ⟨store, u.transaction.rollback, .error refusal⟩ := by
  unfold commit at h ⊢
  cases hcollect : u.manager.collect store u.transaction u.tracked with
  | error other => rfl
  | ok outcome =>
      rw [hcollect] at h
      cases h

/-- A rollback changes nothing of an entity but its change listener. -/
theorem unobserved_rollback {u : UnitOfWork} (store : Store) (h : u.tracked.Nodup) (id : EntityId) :
    ((u.rollback store).store.get? id).map Entity.unobserved =
      (store.get? id).map Entity.unobserved := by
  rw [get?_rollback store h]
  split_ifs
  · rw [Option.map_map]
    rfl
  · rfl

end UnitOfWork

/-- A failed commit completes its transaction as a rollback does, which is how a transaction ends that is
given up, and leaves every entity as a rollback leaves it, but for its change listener. The listener of an
entity that was ever tracked is as after a rollback exactly if it knew of no changes when the commit
failed, and exactly then no later unit of work reports changes that were recorded under the failed one. -/
theorem failed_commit_rolls_back_iff {s : Session} (hfresh : s.work.tracked = [])
    (hforgets : ∀ id e, s.store.get? id = some e → e.Forgets) {steps : List Step}
    (hkeeps : ∀ step ∈ steps, step.KeepsListeners)
    {failed : WorkEnd (Except TransactionRequired (List Event))}
    (hfailed : failed = (s.run steps).work.commit (s.run steps).store)
    {refusal : TransactionRequired} (hrefused : failed.result = .error refusal)
    {undone : WorkEnd Unit} (hundone : undone = (s.run steps).work.rollback (s.run steps).store) :
    failed.completion = undone.completion ∧
      (s.run steps).work.transaction.CompletesBy .rolledBack failed.completion ∧
      ((s.run steps).work.transaction.finish .drop).completions = [failed.completion] ∧
      failed.store = (s.run steps).store ∧
      (∀ id, (failed.store.get? id).map Entity.unobserved =
        (undone.store.get? id).map Entity.unobserved) ∧
      ∀ id, s.EverTracked steps id → ∀ e, failed.store.get? id = some e →
        (undone.store.get? id = failed.store.get? id ↔ e.Quiet) ∧
          (Session.NothingLeft id failed.store ↔ e.Quiet) := by
  subst hundone
  have htracked : s.work.tracked.Nodup := hfresh ▸ List.nodup_nil
  have hended := UnitOfWork.commit_error (hfailed ▸ hrefused)
  rw [hfailed, hended]
  refine ⟨rfl, Transaction.completesBy_complete _ .rolledBack, rfl, rfl, ?_, ?_⟩
  · intro id
    exact (UnitOfWork.unobserved_rollback _ (Session.nodup_tracked_run htracked steps) id).symm
  · intro id hid e he
    refine ⟨?_, Session.nothingLeft_iff_quiet he (Session.forgets_run htracked hkeeps (hforgets id) e he)⟩
    rw [he]
    exact Session.get?_rollback_eq_iff htracked (hforgets id) hkeeps hid he

namespace Sample

theorem forgets_unsupported : ∀ id e, unsupported.store.get? id = some e → e.Forgets := by
  intro id e he listener hlistener
  cases id with
  | zero =>
      cases he
      cases hlistener
  | succ n => cases he

/-- The person of a unit of work whose commit failed gets another creator before. -/
def refused : WorkEnd (Except TransactionRequired (List Event)) :=
  (unsupported.run recreation).work.commit (unsupported.run recreation).store

/-- The same, with a rollback in place of the commit. -/
def withdrawn : WorkEnd Unit :=
  (unsupported.run recreation).work.rollback (unsupported.run recreation).store

theorem loud_refused : ∃ e, refused.store.get? 0 = some e ∧ ¬e.Quiet := by
  refine ⟨_, rfl, fun hquiet => ?_⟩
  exact absurd (hquiet _ rfl) (by decide +kernel)

end Sample

open Sample in
/-- The person is as after a rollback but for the listener, which still knows of the old creator. -/
theorem creator_left_by_failed_commit :
    refused.result = .error .transactionRequired ∧ unsupported.EverTracked recreation 0 ∧
      refused.completion = withdrawn.completion ∧
      ∃ e, refused.store.get? 0 = some e ∧ withdrawn.store.get? 0 ≠ some e ∧
        ¬Session.NothingLeft 0 refused.store := by
  have htracked : unsupported.EverTracked recreation 0 := ⟨recreation, [], rfl, by decide +kernel⟩
  obtain ⟨hcompletion, -, -, -, -, hleft⟩ := failed_commit_rolls_back_iff
    (show unsupported.work.tracked = [] from rfl) forgets_unsupported keepsListeners_recreation
    (show refused = _ from rfl) (show refused.result = .error .transactionRequired from rfl)
    (show withdrawn = _ from rfl)
  obtain ⟨e, he, hloud⟩ := loud_refused
  obtain ⟨hsame, hnothing⟩ := hleft 0 htracked e he
  refine ⟨rfl, htracked, hcompletion, e, he, fun h => hloud (hsame.mp (h.trans he.symm)), ?_⟩
  exact fun h => hloud (hnothing.mp h)

open Sample in
/-- After the failed commit a unit of work that only attaches the person reports the creator; after a
rollback it reports nothing. -/
theorem creator_reported_after_failed_commit :
    refused.result = .error .transactionRequired ∧
      0 ∈ (unsupported.run recreation).work.tracked ∧
      (∃ e, refused.store.get? 0 = some e ∧ ¬e.Quiet) ∧
      (∃ event, (((Session.opening {} .start refused.store).run [.attach 0]).work.commit
          ((Session.opening {} .start refused.store).run [.attach 0]).store).result = .ok [event] ∧
        event.source = 0 ∧ event.type = .updated ∧
        event.payload.diff = .plain [⟨"created_by", .scalar (.text "eve")⟩]) ∧
      (((Session.opening {} .start withdrawn.store).run [.attach 0]).work.commit
        ((Session.opening {} .start withdrawn.store).run [.attach 0]).store).result = .ok [] := by
  refine ⟨rfl, by decide +kernel, loud_refused, ⟨_, rfl, rfl, rfl, ?_⟩, rfl⟩
  decide +kernel

end Chronicle
