import Chronicle.Proofs.Diff.Names
import Chronicle.Proofs.Diff.Repetition
import Chronicle.Proofs.Sample.World
import Chronicle.Proofs.Tracking.Rounds
import Mathlib.Data.List.Induction

/-!
# What is collected

Whatever rounds a transaction has seen, what is collected in the end has one record of every observed
entity, in the order of the first observations. Collecting shows what one more round would leave, and a
round that is repeated leaves the transaction as it is.

## Implementation notes

A round may look at an entity several times. As the store is the same, all its observations of the
entity are the same, and this is all that the laws of repetition ask of a round.
-/

namespace Chronicle

namespace ChangeRecord

/-! ## Order and types -/

/-- The records of observations stand in the order in which their entities were first observed. -/
theorem entities_absorbAll (observed : List ChangeRecord) :
    (absorbAll [] observed).map ChangeRecord.entity =
      (observed.map ChangeRecord.entity).eraseDups := by
  induction observed using List.reverseRecOn with
  | nil => rfl
  | append_singleton earlier later ih =>
      have hstep : absorbAll [] (earlier ++ [later]) = absorb (absorbAll [] earlier) later :=
        List.foldl_concat absorb [] later earlier
      rw [hstep, entities_absorb, ih, List.map_append, List.map_singleton, List.eraseDups_append]
      by_cases hmem : later.entity ∈ earlier.map ChangeRecord.entity
      · rw [if_pos (List.mem_eraseDups.mpr hmem), List.removeAll,
          List.filter_cons_of_neg (by simpa using hmem)]
        simp
      · rw [if_neg (List.mem_eraseDups.not.mpr hmem), List.removeAll,
          List.filter_cons_of_pos (by simpa using hmem)]
        simp [List.eraseDups_cons]

/-- A deletion among later observations decides the type of a record. -/
theorem type_foldl_merge (record : ChangeRecord) (later : List ChangeRecord) :
    (later.foldl merge record).type =
      if ∃ r ∈ record :: later, r.type = .deleted then .deleted else record.type := by
  induction later generalizing record with
  | nil => by_cases h : record.type = .deleted <;> simp [h]
  | cons first rest ih =>
      rw [List.foldl_cons, ih, type_merge]
      by_cases hfirst : first.type = .deleted
      · simp [hfirst]
      · by_cases hrecord : record.type = .deleted
        · simp [hrecord]
        · simp [type_merge, hfirst, hrecord]

theorem foldl_update (record : ChangeRecord) (later : List ChangeRecord) :
    later.foldl (fun known r => some (update known r)) (some record) =
      some (later.foldl merge record) := by
  induction later generalizing record with
  | nil => rfl
  | cons first rest ih => exact ih (record.merge first)

/-- Every record of what was observed is made of all observations of its entity. -/
theorem eq_foldl_about {observed : List ChangeRecord} {record : ChangeRecord}
    (h : record ∈ absorbAll [] observed) :
    ∃ first rest, about record.entity observed = first :: rest ∧
      record = rest.foldl merge first := by
  have hdistinct : ((absorbAll [] observed).map ChangeRecord.entity).Nodup :=
    nodup_absorbAll observed List.nodup_nil
  have hknown := of?_of_mem hdistinct h
  rw [of?_absorbAll_eq] at hknown
  cases habout : about record.entity observed with
  | nil =>
      rw [habout] at hknown
      cases hknown
  | cons first rest =>
      rw [habout] at hknown
      change rest.foldl (fun known r => some (update known r)) (some first) = some record at hknown
      rw [foldl_update] at hknown
      exact ⟨first, rest, rfl, (Option.some.inj hknown).symm⟩

/-- Whether records summarize what was observed: they are of the observed entities, of each one once, in
the order in which the entities were first observed. The type of each is that of a deletion if one was
observed, otherwise that of the first observation of the entity. -/
structure Summarizes (observed records : List ChangeRecord) : Prop where
  observed_iff : ∀ id, id ∈ records.map ChangeRecord.entity ↔ id ∈ observed.map ChangeRecord.entity
  distinct : (records.map ChangeRecord.entity).Nodup
  ordered : records.map ChangeRecord.entity = (observed.map ChangeRecord.entity).eraseDups
  type_eq : ∀ record ∈ records, ∃ first rest, about record.entity observed = first :: rest ∧
    record.type = if ∃ r ∈ first :: rest, r.type = .deleted then .deleted else first.type

theorem summarizes_absorbAll (observed : List ChangeRecord) :
    Summarizes observed (absorbAll [] observed) where
  observed_iff := by
    intro id
    rw [entities_absorbAll, List.mem_eraseDups]
  distinct := nodup_absorbAll observed List.nodup_nil
  ordered := entities_absorbAll observed
  type_eq := by
    intro record hrecord
    obtain ⟨first, rest, habout, heq⟩ := eq_foldl_about hrecord
    refine ⟨first, rest, habout, ?_⟩
    rw [heq]
    exact type_foldl_merge first rest

end ChangeRecord

/-- One record of each observed entity, none lost, in order: however many rounds a transaction without
records has seen, and whatever entities they looked at, what is collected in a last round summarizes the
observations of all. So do the records of a unit of work when it is committed, and the events come in
their order. -/
theorem collected_once_in_order {s : Session} (hobserves : s.observes = true)
    (hempty : s.work.accumulated = []) :
    (∀ (rounds : List Round) (last : Round), ∃ flushed collected records,
      s.work.manager.flushAll s.work.transaction rounds = .ok flushed ∧
      s.work.manager.collect last.store flushed last.ids = .ok (collected, records) ∧
      ChangeRecord.Summarizes (s.work.manager.observations (rounds ++ [last])) records) ∧
    ∀ steps : List Step, ∃ events records,
      ((s.run steps).work.commit (s.run steps).store).result = .ok events ∧
      ChangeRecord.Summarizes
        (s.work.manager.observations (s.rounds steps ++ [(s.run steps).round])) records ∧
      events.map (fun event => (event.source, event.payload.type)) =
        records.map (fun record => (record.entity, record.type)) := by
  obtain ⟨henabled, hrefuses⟩ := s.observes_iff.mp hobserves
  constructor
  · intro rounds last
    obtain ⟨flushed, hflushed, hnext, hrecords⟩ := Manager.flushAll_eq henabled hrefuses rounds
    have hlast : ChangeRecord.absorbAll flushed.resources.records
          (s.work.manager.records last.store last.ids) =
        ChangeRecord.absorbAll [] (s.work.manager.observations (rounds ++ [last])) := by
      change s.work.transaction.resources.records = [] at hempty
      rw [hrecords, hempty, Manager.absorbAll_observations_concat]
    refine ⟨flushed, _, _, hflushed, Manager.collect_eq henabled hnext last.store last.ids, ?_⟩
    rw [hlast]
    exact ChangeRecord.summarizes_absorbAll _
  · intro steps
    have hrun : (s.run steps).observes = true := (s.observes_run steps).trans hobserves
    have hflush : ((s.run steps).step .flush).work.accumulated =
        ChangeRecord.absorbAll []
          (s.work.manager.observations (s.rounds steps ++ [(s.run steps).round])) := by
      rw [Session.accumulated_flush, if_pos hrun, Session.pending, Session.accumulated_run hobserves,
        hempty, Manager.absorbAll_observations_concat, Session.manager_run]
      rfl
    refine ⟨_, _, Session.commit_result hrun, ChangeRecord.summarizes_absorbAll _, ?_⟩
    rw [hflush, List.map_map]
    rfl

/-- Of two persons the second one is seen first. -/
theorem people_collected_in_order :
    (∃ flushed collected records,
      ({} : Manager).flushAll .start [⟨⟨[Sample.ann, Sample.ann]⟩, [1, 0, 1]⟩] = .ok flushed ∧
      ({} : Manager).collect ⟨[Sample.ann, Sample.ann]⟩ flushed [0] = .ok (collected, records) ∧
      records.map ChangeRecord.entity = [1, 0]) ∧
    ∃ events,
      (((Session.start [Sample.ann, Sample.ann]).run Sample.departure).work.commit
        ((Session.start [Sample.ann, Sample.ann]).run Sample.departure).store).result = .ok events ∧
      events.map Event.source = [1, 0] := by
  obtain ⟨hrounds, hsteps⟩ := collected_once_in_order
    (show (Session.start [Sample.ann, Sample.ann]).observes = true from rfl) rfl
  constructor
  · obtain ⟨flushed, collected, records, hflushed, hcollect, hsummary⟩ :=
      hrounds [⟨⟨[Sample.ann, Sample.ann]⟩, [1, 0, 1]⟩] ⟨⟨[Sample.ann, Sample.ann]⟩, [0]⟩
    refine ⟨flushed, collected, records, hflushed, hcollect, ?_⟩
    rw [hsummary.ordered]
    decide +kernel
  · obtain ⟨events, records, hcommit, hsummary, hevents⟩ := hsteps Sample.departure
    refine ⟨events, hcommit, ?_⟩
    have hsources := congrArg (List.map Prod.fst) hevents
    simp only [List.map_map] at hsources
    change events.map Event.source = records.map ChangeRecord.entity at hsources
    rw [hsources, hsummary.ordered]
    decide +kernel

namespace ChangeRecord

/-! ## Merging an observation again -/

/-- A record that has all of an observation is merged with it without effect. -/
theorem merge_eq_self {record later : ChangeRecord}
    (htype : later.type = .deleted → record.type = .deleted)
    (hnames : record.diff.mergeNames later.diff = record.diff ∨ record.type ≠ .created)
    (hdiff : record.diff.merge later.diff = record.diff ∨ record.type = .created) :
    record.merge later = record := by
  have hsame : (record.merge later).type = record.type := by
    rw [type_merge]
    by_cases hdeleted : later.type = .deleted
    · rw [if_pos hdeleted, htype hdeleted]
    · rw [if_neg hdeleted]
  have hkept : (record.merge later).diff = record.diff := by
    by_cases hcreated : record.type = .created
    · rw [diff_merge_of_created (hsame.trans hcreated)]
      exact hnames.resolve_right (not_not_intro hcreated)
    · rw [diff_merge (hsame ▸ hcreated)]
      exact hdiff.resolve_right hcreated
  calc
    record.merge later =
        { record with type := (record.merge later).type, diff := (record.merge later).diff } := rfl
    _ = record := by rw [hsame, hkept]

/-- An observation that is merged with itself stays the same. -/
theorem merge_self {later : ChangeRecord} (hl : later.diff.Orderly) : later.merge later = later :=
  merge_eq_self id (Or.inl (Diff.mergeNames_self later.diff)) (Or.inl hl.merge_again.1)

/-- An observation that was merged into a record is merged into it once more without effect. -/
theorem merge_merge {record later : ChangeRecord} (h : record.diff.Orderly)
    (hl : later.diff.Orderly) : (record.merge later).merge later = record.merge later := by
  apply merge_eq_self
  · intro hdeleted
    exact type_merge_of_deleted (Or.inr hdeleted)
  · by_cases hcreated : (record.merge later).type = .created
    · rw [diff_merge_of_created hcreated]
      exact Or.inl (Diff.mergeNames_mergeNames record.diff later.diff)
    · exact Or.inr hcreated
  · by_cases hcreated : (record.merge later).type = .created
    · exact Or.inr hcreated
    · rw [diff_merge hcreated]
      exact Or.inl (hl.merge_again.2 record.diff h)

/-! ## Absorbing observations again -/

/-- Whether the record of an entity has an observation in it already. -/
def Settled (records : List ChangeRecord) (later : ChangeRecord) : Prop :=
  ∃ record, of? later.entity records = some record ∧ record.merge later = record

theorem absorb_of_settled {records : List ChangeRecord} {later : ChangeRecord}
    (h : Settled records later) : absorb records later = records := by
  obtain ⟨record, hrecord, hmerge⟩ := h
  induction records with
  | nil => cases hrecord
  | cons first rest ih =>
      by_cases hsame : first.entity = later.entity
      · have hfirst : first = record := by simpa [of?, hsame] using hrecord
        rw [absorb, if_pos hsame, hfirst, hmerge]
      · have hrest : of? later.entity rest = some record := by simpa [of?, hsame] using hrecord
        rw [absorb, if_neg hsame, ih hrest]

theorem absorbAll_of_settled {records observed : List ChangeRecord}
    (h : ∀ later ∈ observed, Settled records later) : absorbAll records observed = records := by
  induction observed with
  | nil => rfl
  | cons first rest ih =>
      rw [List.forall_mem_cons] at h
      change absorbAll (absorb records first) rest = records
      rw [absorb_of_settled h.1]
      exact ih h.2

/-- What is absorbed is settled. -/
theorem settled_absorb {records : List ChangeRecord} (h : ∀ r ∈ records, r.diff.Orderly)
    {later : ChangeRecord} (hl : later.diff.Orderly) : Settled (absorb records later) later := by
  refine ⟨update (of? later.entity records) later, ?_, ?_⟩
  · rw [of?_absorb, if_pos rfl]
  · cases hrecord : of? later.entity records with
    | none => exact merge_self hl
    | some record => exact merge_merge (h record (entity_of? hrecord).1) hl

/-- What is settled stays so while nothing else is observed about its entity. -/
theorem Settled.absorb {records : List ChangeRecord} {later other : ChangeRecord}
    (h : Settled records later) (hsame : other.entity = later.entity → other = later) :
    Settled (absorb records other) later := by
  by_cases hentity : other.entity = later.entity
  · rw [hsame hentity, absorb_of_settled h]
    exact h
  · obtain ⟨record, hrecord, hmerge⟩ := h
    refine ⟨record, ?_, hmerge⟩
    rw [of?_absorb, if_neg hentity, hrecord]

theorem Settled.absorbAll {records observed : List ChangeRecord} {later : ChangeRecord}
    (h : Settled records later)
    (hsame : ∀ other ∈ observed, other.entity = later.entity → other = later) :
    Settled (absorbAll records observed) later := by
  induction observed generalizing records with
  | nil => exact h
  | cons first rest ih =>
      rw [List.forall_mem_cons] at hsame
      exact ih (h.absorb hsame.1) hsame.2

theorem settled_absorbAll {records observed : List ChangeRecord} (h : ∀ r ∈ records, r.diff.Orderly)
    (ho : ∀ r ∈ observed, r.diff.Orderly)
    (hsame : ∀ a ∈ observed, ∀ b ∈ observed, a.entity = b.entity → a = b) :
    ∀ later ∈ observed, Settled (ChangeRecord.absorbAll records observed) later := by
  induction observed generalizing records with
  | nil => simp
  | cons first rest ih =>
      rw [List.forall_mem_cons] at ho
      intro later hlater
      rcases List.mem_cons.mp hlater with rfl | hmem
      · apply (settled_absorb h ho.1).absorbAll
        exact fun other hother => hsame other (List.mem_cons_of_mem later hother) later hlater
      · refine ih (forall_absorb (fun _ _ => proper_merge) h ho.1) ho.2 ?_ later hmem
        exact fun a ha b hb => hsame a (List.mem_cons_of_mem first ha) b (List.mem_cons_of_mem first hb)

/-- Observations that agree on every entity are absorbed once more without effect. -/
theorem absorbAll_absorbAll {records observed : List ChangeRecord}
    (h : ∀ r ∈ records, r.diff.Orderly) (ho : ∀ r ∈ observed, r.diff.Orderly)
    (hsame : ∀ a ∈ observed, ∀ b ∈ observed, a.entity = b.entity → a = b) :
    absorbAll (absorbAll records observed) observed = absorbAll records observed :=
  absorbAll_of_settled (settled_absorbAll h ho hsame)

end ChangeRecord

/-- A round makes the same observation each time it looks at an entity. -/
theorem Manager.eq_of_mem_records {m : Manager} {store : Store} {ids : List EntityId}
    {a b : ChangeRecord} (ha : a ∈ m.records store ids) (hb : b ∈ m.records store ids)
    (h : a.entity = b.entity) : a = b := by
  obtain ⟨id, -, e, o, he, ho, rfl⟩ := Manager.mem_records ha
  obtain ⟨other, -, e', o', he', ho', rfl⟩ := Manager.mem_records hb
  have hid : id = other := by
    rw [← Manager.observation?_entity ho, ← Manager.observation?_entity ho', h]
  subst hid
  rw [he, Option.some.injEq] at he'
  subst he'
  rw [ho, Option.some.injEq] at ho'
  rw [ho']

theorem Transaction.Reachable.records_orderly {t : Transaction} (ht : t.Reachable) :
    ∀ r ∈ t.resources.records, r.diff.Orderly :=
  ht.forall_records (fun _ _ => ChangeRecord.proper_merge) Manager.records_orderly

/-- Collecting shows what a round would leave: it returns the records that the transaction holds after
`beforeFlush`, and lets the transaction hold what it held. When the same round is repeated, `beforeFlush`
leaves the transaction as it is. If the transaction is refused, then by both. -/
theorem collect_previews_flush {t : Transaction} (ht : t.Reachable) {m : Manager}
    (henabled : m.config.enabled = true) (store : Store) (ids : List EntityId) :
    (m.refuses t = true ∧ m.collect store t ids = .error .transactionRequired ∧
        m.beforeFlush store t ids = .error .transactionRequired) ∨
      ∃ collected flushed : Transaction,
        m.collect store t ids = .ok (collected, flushed.resources.records) ∧
        collected.resources.records = t.resources.records ∧
        m.beforeFlush store t ids = .ok flushed ∧
        m.beforeFlush store flushed ids = .ok flushed := by
  cases hrefuses : m.refuses t with
  | true =>
      have hrefused := Manager.refused_eq henabled hrefuses store ids
      exact Or.inl ⟨rfl, hrefused.2, hrefused.1⟩
  | false =>
      right
      have hagain := ChangeRecord.absorbAll_absorbAll ht.records_orderly
        (m.records_orderly store ids) fun a ha b hb => Manager.eq_of_mem_records ha hb
      refine ⟨t.holding t.resources.records,
        t.holding (ChangeRecord.absorbAll t.resources.records (m.records store ids)),
        Manager.collect_eq henabled hrefuses store ids, rfl,
        Manager.beforeFlush_eq henabled hrefuses store ids, ?_⟩
      rw [Manager.beforeFlush_eq henabled ((m.refuses_holding t _).trans hrefuses),
        Transaction.records_holding, hagain, Transaction.holding_holding]

/-- A person who has moved again since the last flush is seen twice in one round. -/
theorem person_collected_as_flushed :
    ∃ collected flushed : Transaction,
      ({} : Manager).collect Sample.moving.store Sample.moving.work.transaction [0, 0] =
        .ok (collected, flushed.resources.records) ∧
      collected.resources.records = Sample.moving.work.accumulated ∧
      ({} : Manager).beforeFlush Sample.moving.store Sample.moving.work.transaction [0, 0] =
        .ok flushed ∧
      ({} : Manager).beforeFlush Sample.moving.store flushed [0, 0] = .ok flushed := by
  have hstart : (Session.start [Sample.resident]).work.transaction.Reachable := .start
  have hpreview := collect_previews_flush (Session.reachable_run hstart (Sample.relocation.take 4))
    (show ({} : Manager).config.enabled = true from rfl) Sample.moving.store [0, 0]
  exact hpreview.resolve_left fun hrefused => absurd hrefused.1 (by decide +kernel)

end Chronicle
