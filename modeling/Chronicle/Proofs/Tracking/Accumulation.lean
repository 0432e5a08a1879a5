import Chronicle.Proofs.Diff.Names
import Chronicle.Proofs.Tracking.ChangeSet
import Chronicle.Proofs.Tracking.Extract
import Chronicle.Tracking.Manager

/-!
# Accumulating records

What happens to the record of a single entity while observations are absorbed, and that records stay
distinct and proper.

## Implementation notes

The record of an entity is the first one of the entity. As records have distinct entities it is the
only one, but the laws of absorbing do not need that.
-/

namespace Chronicle

variable {w : World}

namespace ChangeRecord

/-- The record of an entity. -/
def of? (id : EntityId) (records : List ChangeRecord) : Option ChangeRecord :=
  records.find? (·.entity = id)

/-- The observations of an entity, in their order. -/
def about (id : EntityId) (observed : List ChangeRecord) : List ChangeRecord :=
  observed.filter (·.entity = id)

/-- A record, or none, with a later observation of the entity merged into it. -/
def update (known : Option ChangeRecord) (later : ChangeRecord) : ChangeRecord :=
  known.elim later (·.merge later)

/-- Whether the diff of a record is proper. -/
def Sound (record : ChangeRecord) : Prop := record.diff.Proper Dotless

theorem entity_of? {id : EntityId} {records : List ChangeRecord} {record : ChangeRecord}
    (h : of? id records = some record) : record ∈ records ∧ record.entity = id :=
  ⟨List.mem_of_find?_eq_some h, by simpa using List.find?_some h⟩

theorem of?_of_mem {records : List ChangeRecord} (h : (records.map ChangeRecord.entity).Nodup)
    {record : ChangeRecord} (hrecord : record ∈ records) : of? record.entity records = some record := by
  induction records with
  | nil => cases hrecord
  | cons first rest ih =>
      obtain ⟨hfirst, hrest⟩ := List.nodup_cons.mp h
      rcases List.mem_cons.mp hrecord with rfl | hrecord
      · simp [of?]
      · have hne : first.entity ≠ record.entity := by
          intro heq
          exact hfirst (heq ▸ List.mem_map_of_mem hrecord)
        rw [of?, List.find?_cons_of_neg (by simpa using hne)]
        exact ih hrest hrecord

/-- An absorbed observation changes the record of its entity and no other. -/
theorem of?_absorb (id : EntityId) (records : List ChangeRecord) (later : ChangeRecord) :
    of? id (absorb records later) =
      if later.entity = id then some (update (of? id records) later) else of? id records := by
  induction records with
  | nil => by_cases h : later.entity = id <;> simp [absorb, of?, update, h]
  | cons record rest ih =>
      by_cases hrecord : record.entity = later.entity
      · by_cases h : later.entity = id <;>
          simp [absorb, of?, update, merge, hrecord, h]
      · rw [absorb, if_neg hrecord]
        by_cases hid : record.entity = id
        · have hlater : later.entity ≠ id := fun h => hrecord (hid.trans h.symm)
          simp [of?, hid, hlater]
        · simpa [of?, hid] using ih

/-- The observations of an entity are merged into its record one after another. -/
theorem of?_absorbAll_eq (id : EntityId) (records observed : List ChangeRecord) :
    of? id (absorbAll records observed) =
      (about id observed).foldl (fun known later => some (update known later)) (of? id records) := by
  induction observed generalizing records with
  | nil => rfl
  | cons later rest ih =>
      change of? id (absorbAll (absorb records later) rest) = _
      rw [ih, of?_absorb]
      by_cases hid : later.entity = id
      · simp [about, hid]
      · simp [about, hid]

theorem about_eq_toList {observed : List ChangeRecord}
    (h : (observed.map ChangeRecord.entity).Nodup) (id : EntityId) :
    about id observed = (of? id observed).toList := by
  induction observed with
  | nil => rfl
  | cons later rest ih =>
      obtain ⟨hlater, hrest⟩ := List.nodup_cons.mp h
      by_cases hid : later.entity = id
      · subst hid
        have hnone : rest.filter (·.entity = later.entity) = [] := by
          rw [List.filter_eq_nil_iff]
          intro record hrecord heq
          exact hlater (List.mem_map.mpr ⟨record, hrecord, by simpa using heq⟩)
        simp [about, of?, hnone]
      · simpa [about, of?, hid] using ih hrest

/-- Of observations with distinct entities the one of an entity is merged into its record. -/
theorem of?_absorbAll {id : EntityId} (records : List ChangeRecord) {observed : List ChangeRecord}
    (h : (observed.map ChangeRecord.entity).Nodup) :
    of? id (absorbAll records observed) =
      (of? id observed).elim (of? id records) fun later => some (update (of? id records) later) := by
  rw [of?_absorbAll_eq, about_eq_toList h]
  cases of? id observed <;> rfl

/-- An observation of an entity without a record puts its record after all others. -/
theorem entities_absorb (records : List ChangeRecord) (later : ChangeRecord) :
    (absorb records later).map ChangeRecord.entity =
      if later.entity ∈ records.map ChangeRecord.entity then records.map ChangeRecord.entity
      else records.map ChangeRecord.entity ++ [later.entity] := by
  induction records with
  | nil => simp [absorb]
  | cons record rest ih =>
      by_cases hsame : record.entity = later.entity
      · simp [absorb, merge, hsame]
      · rw [absorb, if_neg hsame, List.map_cons, ih]
        by_cases hmem : later.entity ∈ rest.map ChangeRecord.entity
        · simp [hmem]
        · simp [hmem, Ne.symm hsame]

theorem nodup_absorb {records : List ChangeRecord} (later : ChangeRecord)
    (h : (records.map ChangeRecord.entity).Nodup) :
    ((absorb records later).map ChangeRecord.entity).Nodup := by
  rw [entities_absorb]
  split_ifs with hmem
  · exact h
  · rw [← List.concat_eq_append]
    exact h.concat hmem

theorem nodup_absorbAll {records : List ChangeRecord} (observed : List ChangeRecord)
    (h : (records.map ChangeRecord.entity).Nodup) :
    ((absorbAll records observed).map ChangeRecord.entity).Nodup := by
  induction observed generalizing records with
  | nil => exact h
  | cons later rest ih => exact ih (nodup_absorb later h)

/-! ## Merged records -/

theorem type_merge (record later : ChangeRecord) :
    (record.merge later).type = if later.type = .deleted then .deleted else record.type := rfl

/-- A merged record is one of a creation only if the earlier one is. -/
theorem type_of_merge_created {record later : ChangeRecord}
    (h : (record.merge later).type = .created) : record.type = .created := by
  rw [type_merge] at h
  split_ifs at h
  exact h

/-- A record that is merged with something other than a creation has the union of both diffs. -/
theorem diff_merge {record later : ChangeRecord} (h : (record.merge later).type ≠ .created) :
    (record.merge later).diff = record.diff.merge later.diff :=
  if_neg h

/-- A record that is still one of a creation takes over names only. -/
theorem diff_merge_of_created {record later : ChangeRecord}
    (h : (record.merge later).type = .created) :
    (record.merge later).diff = record.diff.mergeNames later.diff :=
  if_pos h

theorem proper_merge {legal : String → Prop} {record later : ChangeRecord}
    (h : record.diff.Proper legal) (hl : later.diff.Proper legal) :
    (record.merge later).diff.Proper legal := by
  by_cases htype : (record.merge later).type = .created
  · rw [diff_merge_of_created htype]
    exact h.mergeNames hl
  · rw [diff_merge htype]
    exact h.merge hl

theorem Sound.merge {record later : ChangeRecord} (h : record.Sound) (hl : later.Sound) :
    (record.merge later).Sound :=
  proper_merge h hl

/-- What observations have and merging keeps, all records have that are made of them. -/
theorem forall_absorb {P : ChangeRecord → Prop}
    (hmerge : ∀ record later, P record → P later → P (record.merge later))
    {records : List ChangeRecord} {later : ChangeRecord} (h : ∀ r ∈ records, P r) (hl : P later) :
    ∀ r ∈ absorb records later, P r := by
  induction records with
  | nil => simpa [absorb] using hl
  | cons record rest ih =>
      rw [List.forall_mem_cons] at h
      unfold absorb
      split_ifs
      · exact List.forall_mem_cons.mpr ⟨hmerge record later h.1 hl, h.2⟩
      · exact List.forall_mem_cons.mpr ⟨h.1, ih h.2⟩

theorem forall_absorbAll {P : ChangeRecord → Prop}
    (hmerge : ∀ record later, P record → P later → P (record.merge later))
    {records observed : List ChangeRecord} (h : ∀ r ∈ records, P r) (ho : ∀ r ∈ observed, P r) :
    ∀ r ∈ absorbAll records observed, P r := by
  induction observed generalizing records with
  | nil => exact h
  | cons later rest ih =>
      rw [List.forall_mem_cons] at ho
      exact ih (forall_absorb hmerge h ho.1) ho.2

theorem sound_absorbAll {records observed : List ChangeRecord} (h : ∀ r ∈ records, r.Sound)
    (ho : ∀ r ∈ observed, r.Sound) : ∀ r ∈ absorbAll records observed, r.Sound :=
  forall_absorbAll (fun _ _ => Sound.merge) h ho

theorem type_merge_of_deleted {record later : ChangeRecord}
    (h : record.type = .deleted ∨ later.type = .deleted) : (record.merge later).type = .deleted := by
  rw [type_merge]
  by_cases hl : later.type = .deleted
  · simp [hl]
  · simpa [hl] using h

end ChangeRecord

/-! ## Observations -/

theorem Entity.Sound.source {id : EntityId} {e : Entity} (h : e.Sound w id) {listener : ChangeListener}
    (hlistener : e.changeListener = some listener) : listener.source.recording.Sound w := by
  have hsound := h.listener listener hlistener
  cases listener with
  | recording changes => exact ChangeSet.Sound.recording hsound
  | fixed source => exact hsound

namespace Manager

/-- What can be observed about an entity: that it is new, or, if it has a change listener, that it is
deleted or changed. -/
theorem observation?_cases {m : Manager} {id : EntityId} {e : Entity} {o : Observation}
    (h : m.observation? id e = some o) :
    o.record.entity = id ∧
      ((e.state = .new ∧ o.record.type = .created ∧ o.record.diff = e.object.presence) ∨
        e.state ≠ .new ∧ ∃ listener, e.changeListener = some listener ∧
          ((m.isDeleted e listener.source = true ∧ o.record.type = .deleted ∧
              o.record.diff = e.object.snapshot) ∨
            (m.isDeleted e listener.source = false ∧ listener.source.hasChanges = true ∧
              o.record.type = .updated ∧ o.record.diff = listener.source.recording.diff))) := by
  unfold observation? at h
  by_cases hnew : e.state = .new
  · rw [if_pos hnew] at h
    cases h
    exact ⟨rfl, Or.inl ⟨hnew, rfl, rfl⟩⟩
  · rw [if_neg hnew] at h
    cases hlistener : e.changeListener with
    | none =>
        rw [hlistener] at h
        cases h
    | some listener =>
        simp only [hlistener] at h
        split_ifs at h with hdeleted hchanges
        · cases h
          exact ⟨rfl, Or.inr ⟨hnew, listener, rfl, Or.inl ⟨hdeleted, rfl, rfl⟩⟩⟩
        · cases h
          exact ⟨rfl, Or.inr ⟨hnew, listener, rfl,
            Or.inr ⟨Bool.eq_false_iff.mpr hdeleted, hchanges, rfl, rfl⟩⟩⟩

theorem observation?_entity {m : Manager} {id : EntityId} {e : Entity} {o : Observation}
    (h : m.observation? id e = some o) : o.record.entity = id :=
  (observation?_cases h).1

/-- What is observed about a sound entity is proper. -/
theorem observation?_sound {m : Manager} {id : EntityId} {e : Entity} {o : Observation}
    (he : e.Sound w id) (h : m.observation? id e = some o) : o.record.Sound := by
  unfold ChangeRecord.Sound
  obtain ⟨-, ⟨-, -, hdiff⟩ | ⟨-, listener, hlistener, ⟨-, -, hdiff⟩ | ⟨-, -, -, hdiff⟩⟩⟩ :=
    observation?_cases h
  · rw [hdiff]
    exact he.object.presence_proper
  · rw [hdiff]
    exact he.object.snapshot_proper
  · rw [hdiff]
    exact (he.source hlistener).diff_proper

/-- What is observed about any entity is orderly. -/
theorem observation?_orderly {m : Manager} {id : EntityId} {e : Entity} {o : Observation}
    (h : m.observation? id e = some o) : o.record.diff.Orderly := by
  obtain ⟨-, ⟨-, -, hdiff⟩ | ⟨-, listener, -, ⟨-, -, hdiff⟩ | ⟨-, -, -, hdiff⟩⟩⟩ :=
    observation?_cases h
  · rw [hdiff]
    exact e.object.presence_orderly
  · rw [hdiff]
    exact e.object.snapshot_orderly
  · rw [hdiff]
    exact listener.source.recording.diff_orderly

/-- Every record of what is observed comes from an entity among those that are looked at. -/
theorem mem_records {m : Manager} {store : Store} {ids : List EntityId} {record : ChangeRecord}
    (h : record ∈ m.records store ids) :
    ∃ id ∈ ids, ∃ e o, store.get? id = some e ∧ m.observation? id e = some o ∧ o.record = record := by
  obtain ⟨o, ho, rfl⟩ := List.mem_map.mp h
  obtain ⟨id, hid, hobserved⟩ := List.mem_filterMap.mp ho
  obtain ⟨e, he, ho⟩ := Option.bind_eq_some_iff.mp hobserved
  exact ⟨id, hid, e, o, he, ho, rfl⟩

theorem records_entities (m : Manager) (store : Store) (ids : List EntityId) :
    List.Sublist ((m.records store ids).map ChangeRecord.entity) ids := by
  induction ids with
  | nil => exact List.Sublist.slnil
  | cons id rest ih =>
      cases hobserved : (store.get? id).bind (m.observation? id) with
      | none => simpa [records, observe, hobserved] using ih.cons id
      | some o =>
          obtain ⟨e, -, ho⟩ := Option.bind_eq_some_iff.mp hobserved
          have hid := observation?_entity ho
          simp only [records, observe, List.filterMap_cons, hobserved, List.map_cons, hid]
          exact ih.cons_cons id

/-- What is observed about distinct entities holds one record of each that gives any. -/
theorem of?_records (m : Manager) (store : Store) {ids : List EntityId} (h : ids.Nodup)
    (id : EntityId) :
    ChangeRecord.of? id (m.records store ids) =
      if id ∈ ids then ((store.get? id).bind (m.observation? id)).map Observation.record
      else none := by
  induction ids with
  | nil => rfl
  | cons first rest ih =>
      obtain ⟨hfirst, hrest⟩ := List.nodup_cons.mp h
      have ih := ih hrest
      cases hobserved : (store.get? first).bind (m.observation? first) with
      | none =>
          have hstep : m.records store (first :: rest) = m.records store rest := by
            simp [records, observe, hobserved]
          rw [hstep, ih]
          by_cases hid : id = first
          · subst hid
            simp [hfirst, hobserved]
          · simp [hid]
      | some o =>
          obtain ⟨e, -, ho⟩ := Option.bind_eq_some_iff.mp hobserved
          have hentity := observation?_entity ho
          have hstep : m.records store (first :: rest) = o.record :: m.records store rest := by
            simp [records, observe, hobserved]
          rw [hstep]
          by_cases hid : id = first
          · subst hid
            simp [ChangeRecord.of?, hentity, hobserved]
          · have hne : o.record.entity ≠ id := fun heq => hid (heq.symm.trans hentity)
            rw [ChangeRecord.of?, List.find?_cons_of_neg (by simpa using hne)]
            change ChangeRecord.of? id (m.records store rest) = _
            rw [ih]
            simp [hid]

theorem records_sound {m : Manager} {store : Store} {ids : List EntityId}
    (h : ∀ id e, store.get? id = some e → e.Sound w id) :
    ∀ r ∈ m.records store ids, r.Sound := by
  intro r hr
  obtain ⟨id, -, e, o, he, ho, rfl⟩ := mem_records hr
  exact observation?_sound (h id e he) ho

theorem records_orderly (m : Manager) (store : Store) (ids : List EntityId) :
    ∀ r ∈ m.records store ids, r.diff.Orderly := by
  intro r hr
  obtain ⟨id, -, e, o, -, ho, rfl⟩ := mem_records hr
  exact observation?_orderly ho

end Manager

end Chronicle
