import Chronicle.Proofs.Diff.Names
import Chronicle.Proofs.Sample.World
import Chronicle.Proofs.Tracking.Rounds

/-!
# Created entities

The record of a created entity names the attributes that have a value and gives none away, whatever is
merged into it later. This is an invariant of accumulating, so it holds in every transaction that a
program can have.
-/

namespace Chronicle

/-- Whether a record only names attributes if it is one of a creation. -/
def ChangeRecord.Discreet (record : ChangeRecord) : Prop :=
  record.type = .created → record.diff.NamesOnly

theorem Object.presence_namesOnly (o : Object) : o.presence.NamesOnly := by
  apply Diff.namesOnly_empty.addAll
  intro change hchange
  obtain ⟨property, -, rfl⟩ := List.mem_map.mp hchange
  rfl

/-- A record that stays one of a creation takes over names only. -/
theorem ChangeRecord.discreet_merge {record : ChangeRecord} (h : record.Discreet)
    (later : ChangeRecord) : (record.merge later).Discreet := by
  intro htype
  rw [diff_merge_of_created htype]
  exact (h (type_of_merge_created htype)).mergeNames later.diff

/-- What is observed about a new entity is the presence of values, and nothing else is a creation. -/
theorem Manager.records_discreet (m : Manager) (store : Store) (ids : List EntityId) :
    ∀ r ∈ m.records store ids, r.Discreet := by
  intro r hr htype
  obtain ⟨id, -, e, o, -, ho, rfl⟩ := Manager.mem_records hr
  obtain ⟨-, ⟨-, -, hdiff⟩ | ⟨-, listener, -, ⟨-, hdeleted, -⟩ | ⟨-, -, hupdated, -⟩⟩⟩ :=
    Manager.observation?_cases ho
  · rw [hdiff]
    exact e.object.presence_namesOnly
  · rw [hdeleted] at htype
    cases htype
  · rw [hupdated] at htype
    cases htype

/-- Records of creations never leak values: in the accumulator, in what is collected for any entities,
and in the events of a commit, they have no nested diff, name each attribute once, and have null as its
old value. -/
theorem created_names_only {s : Session} (h : s.work.transaction.Reachable) (steps : List Step) :
    (∀ r ∈ (s.run steps).work.accumulated, r.type = .created → r.diff.NamesOnly) ∧
    (∀ (m : Manager) (store : Store) (ids : List EntityId) (next : Transaction)
        (records : List ChangeRecord),
      m.collect store (s.run steps).work.transaction ids = .ok (next, records) →
        ∀ r ∈ records, r.type = .created → r.diff.NamesOnly) ∧
    ∀ events, ((s.run steps).work.commit (s.run steps).store).result = .ok events →
      ∀ event ∈ events, event.payload.type = .created → event.payload.diff.NamesOnly := by
  have hreachable := Session.reachable_run h steps
  have hmerge : ∀ record later : ChangeRecord, record.Discreet → later.Discreet →
      (record.merge later).Discreet := fun _ later hrecord _ =>
    ChangeRecord.discreet_merge hrecord later
  have hcollected : ∀ (m : Manager) (store : Store) (ids : List EntityId) (next : Transaction)
      (records : List ChangeRecord),
      m.collect store (s.run steps).work.transaction ids = .ok (next, records) →
        ∀ r ∈ records, r.Discreet := fun _ _ _ _ _ =>
    hreachable.forall_collected hmerge Manager.records_discreet
  refine ⟨hreachable.forall_records hmerge Manager.records_discreet,
    hcollected, ?_⟩
  intro events hcommit event hevent
  obtain ⟨next, records, hcollect, rfl⟩ := UnitOfWork.commit_ok hcommit
  obtain ⟨record, hrecord, rfl⟩ := List.mem_map.mp hevent
  exact hcollected _ _ _ _ _ hcollect record hrecord

/-- The creator of a new person is named after the second flush. -/
theorem creation_names_creator :
    ∃ r ∈ ((Session.start [Sample.ann]).run Sample.creation).work.accumulated,
      r.type = .created ∧ "created_by" ∈ r.diff.topNames ∧ r.diff.NamesOnly := by
  have hstart : (Session.start [Sample.ann]).work.transaction.Reachable := .start
  have hnames := (created_names_only hstart Sample.creation).1
  refine ⟨_, List.mem_cons_self, rfl, ?_, hnames _ List.mem_cons_self rfl⟩
  decide +kernel

end Chronicle
