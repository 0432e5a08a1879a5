import Chronicle.Proofs.Diff.Place
import Chronicle.Proofs.Tracking.Collection
import Chronicle.Proofs.Tracking.Creation

/-!
# One place for each attribute

What is observed in one round reports an attribute as a plain change or as a nested diff and never as
both. Records merge what several rounds report, and then an attribute may be both: a record is apart
exactly if its observations are compatible.

## Implementation notes

An embedded attribute is reported as a plain change when it was null, and as a nested diff when it held
an object. While a record is one of a creation, what is observed later contributes its outline only.
-/

namespace Chronicle

open Diff (Compatible)

variable {w : World} {id : EntityId}

/-! ## What is observed in one round -/

namespace Value

theorem addTo_apart {legal : String → Prop} {diff : Diff} {name : String} {value : Value}
    (h : diff.Apart) (hdiff : diff.Proper legal) (hname : legal name)
    (hfresh : name ∉ diff.topNames) (hproper : value.snapshot.Proper legal)
    (hvalue : value.snapshot.Apart) : (value.addTo diff name).Apart := by
  cases value with
  | embedded type values => exact h.addEmbedded hdiff hname hfresh hproper hvalue
  | _ => exact h.add hdiff hname hfresh

mutual

theorem snapshot_apart : ∀ value : Value, value.Sound w → value.snapshot.Apart
  | .null, _ => trivial
  | .scalar _, _ => trivial
  | .reference _, _ => trivial
  | .collection .., _ => trivial
  | .embedded type values, h =>
    snapshotFields_apart type.fields values .empty h.wellNamed.1 h.wellNamed.2 h.2 Diff.proper_empty
      trivial fun _ _ => List.not_mem_nil

/-- Fields of distinct names find nothing of their own in what is known already. -/
theorem snapshotFields_apart : ∀ (fields : List Field) (values : List Value) (known : Diff),
    (fields.map Field.name).Nodup → (∀ name ∈ fields.map Field.name, Dotless name) →
    SoundFields w fields values → known.Proper Dotless → known.Apart →
    (∀ name ∈ fields.map Field.name, name ∉ known.topNames) →
    (snapshotFields fields values known).Apart
  | [], _, _, _, _, _, _, hknown, _ => by
    rw [snapshotFields_nil_left]
    exact hknown
  | _ :: _, [], _, _, _, _, _, hknown, _ => by
    rw [snapshotFields_nil_right]
    exact hknown
  | field :: fields, value :: values, known, hdistinct, hnames, hvalues, hproper, hknown, hfresh => by
    obtain ⟨-, hvalue, hrest⟩ := hvalues
    obtain ⟨hfield, hfields⟩ := List.nodup_cons.mp hdistinct
    rw [List.map_cons, List.forall_mem_cons] at hnames hfresh
    have hsnapshot := snapshot_proper value hvalue
    rw [snapshotFields_cons]
    apply snapshotFields_apart fields values _ hfields hnames.2 hrest
    · split_ifs
      · exact addTo_proper hproper hnames.1 hsnapshot
      · exact hproper
    · split_ifs
      · exact addTo_apart hknown hproper hnames.1 hfresh.1 hsnapshot (snapshot_apart value hvalue)
      · exact hknown
    · intro name hname
      split_ifs
      · rw [mem_topNames_addTo, not_or]
        exact ⟨fun heq => hfield (heq ▸ hname), hfresh.2 name hname⟩
      · exact hfresh.2 name hname

end

end Value

theorem Object.Sound.snapshot_apart {o : Object} (h : o.Sound w id) : o.snapshot.Apart :=
  Value.snapshotFields_apart o.type.fields o.values .empty h.wellNamed.1 h.wellNamed.2 h.2
    Diff.proper_empty trivial fun _ _ => List.not_mem_nil

theorem Diff.NamesOnly.apart {d : Diff} (h : d.NamesOnly) : d.Apart := by
  cases d with
  | plain changes => trivial
  | nest name nested rest => cases h.flat

namespace Piece

/-- What is plain or nested by its name is apart if the nested diffs are. -/
theorem diffOf_apart {pieces : List (String × Piece)}
    (horderly : ∀ p ∈ pieces, ∀ inner, p.2.nested? = some inner → inner.Orderly)
    (hinner : ∀ p ∈ pieces, ∀ inner, p.2.nested? = some inner → inner.Apart) :
    (diffOf pieces).Apart := by
  apply (diffOf_follows horderly).apart (diffOf_orderly horderly)
  intro name inner hpiece
  exact find_nested hinner hpiece

end Piece

namespace Recording

theorem Sound.pieces_apart {r : Recording} (h : r.Sound w) :
    ∀ p ∈ r.pieces, ∀ inner, p.2.nested? = some inner → inner.Apart := by
  induction r with
  | nil => simp [Recording.pieces]
  | bare name rest ih =>
      refine List.forall_mem_cons.mpr ⟨fun inner hinner => ?_, ih h.2⟩
      cases hinner
  | value name old rest ih =>
      refine List.forall_mem_cons.mpr ⟨fun inner hinner => ?_, ih h.2.2⟩
      cases old with
      | embedded type values =>
          cases hinner
          exact Value.snapshot_apart _ h.2.1
      | _ => cases hinner
  | aggregate name hasChanges nested rest ihn ihr =>
      refine List.forall_mem_cons.mpr ⟨fun inner hinner => ?_, ihr h.2.2⟩
      cases hinner
      exact Piece.diffOf_apart nested.pieces_orderly (ihn h.2.1)

theorem Sound.diff_apart {r : Recording} (h : r.Sound w) : r.diff.Apart :=
  Piece.diffOf_apart r.pieces_orderly h.pieces_apart

end Recording

/-- What is observed about a sound entity is apart. -/
theorem Manager.observation?_apart {m : Manager} {e : Entity} {o : Observation}
    (he : e.Sound w id) (h : m.observation? id e = some o) : o.record.diff.Apart := by
  obtain ⟨-, ⟨-, -, hdiff⟩ | ⟨-, listener, hlistener, ⟨-, -, hdiff⟩ | ⟨-, -, -, hdiff⟩⟩⟩ :=
    observation?_cases h
  · rw [hdiff]
    exact e.object.presence_namesOnly.apart
  · rw [hdiff]
    exact he.object.snapshot_apart
  · rw [hdiff]
    exact (he.source hlistener).diff_apart

/-! ## What observations contribute -/

namespace ChangeRecord

/-- What an observation contributes to a record that is of a type after it: its outline if the record is
one of a creation, otherwise its whole diff. -/
def share (type : ChangeType) (later : ChangeRecord) : Diff :=
  if type = .created then later.diff.outline else later.diff

/-- What observations contribute one after another to a record that was of a type before them. -/
def shares : ChangeType → List ChangeRecord → List Diff
  | _, [] => []
  | type, later :: rest =>
    let merged := if later.type = .deleted then .deleted else type
    share merged later :: shares merged rest

/-- What observations of one entity contribute to its record: the first one its whole diff. -/
def contributions : List ChangeRecord → List Diff
  | [] => []
  | first :: rest => first.diff :: shares first.type rest

theorem diff_merge_share {record : ChangeRecord} (h : record.Discreet) (later : ChangeRecord) :
    (record.merge later).diff = record.diff.merge (share (record.merge later).type later) := by
  by_cases hmerged : (record.merge later).type = .created
  · have hnames := h (type_of_merge_created hmerged)
    rw [diff_merge_of_created hmerged, hnames.mergeNames_eq_merge, share, if_pos hmerged]
  · rw [diff_merge hmerged, share, if_neg hmerged]

/-- The diff of a record is the union of what its observations contribute. -/
theorem diff_foldl_merge {first : ChangeRecord} (h : first.Discreet) (rest : List ChangeRecord) :
    (rest.foldl merge first).diff = (shares first.type rest).foldl Diff.merge first.diff := by
  induction rest generalizing first with
  | nil => rfl
  | cons later rest ih =>
      rw [List.foldl_cons, ih (discreet_merge h later), diff_merge_share h]
      rfl

theorem proper_shares {type : ChangeType} {observed : List ChangeRecord}
    (h : ∀ o ∈ observed, o.Sound) : ∀ d ∈ shares type observed, d.Proper Dotless := by
  induction observed generalizing type with
  | nil => simp [shares]
  | cons later rest ih =>
      rw [List.forall_mem_cons] at h
      rw [shares, List.forall_mem_cons]
      refine ⟨?_, ih h.2⟩
      unfold share
      by_cases hcreated : (if later.type = .deleted then ChangeType.deleted else type) = .created
      · rw [if_pos hcreated]
        exact h.1.outline
      · rw [if_neg hcreated]
        exact h.1

/-- A record is apart exactly if what its observations contribute is compatible. -/
theorem apart_iff_compatible {observed : List ChangeRecord} (hsound : ∀ o ∈ observed, o.Sound)
    (hdiscreet : ∀ o ∈ observed, o.Discreet) {record : ChangeRecord}
    (hrecord : record ∈ absorbAll [] observed) :
    record.diff.Apart ↔ Compatible (contributions (about record.entity observed)) := by
  obtain ⟨first, rest, habout, heq⟩ := eq_foldl_about hrecord
  have hmem : ∀ o ∈ first :: rest, o ∈ observed := by
    intro o ho
    rw [← habout] at ho
    exact (List.mem_filter.mp ho).1
  have hproper : ∀ d ∈ contributions (first :: rest), d.Proper Dotless := by
    rw [contributions, List.forall_mem_cons]
    refine ⟨hsound first (hmem first List.mem_cons_self), proper_shares fun o ho => ?_⟩
    exact hsound o (hmem o (List.mem_cons_of_mem first ho))
  rw [habout, heq, diff_foldl_merge (hdiscreet first (hmem first List.mem_cons_self))]
  exact Diff.apart_foldl_merge hproper

end ChangeRecord

/-! ## Runs of a unit of work -/

open ChangeRecord (about contributions)

theorem Manager.observations_apart {m : Manager} {rounds : List Round}
    (h : ∀ round ∈ rounds, round.Sound w) : ∀ o ∈ m.observations rounds, o.diff.Apart := by
  intro record hrecord
  obtain ⟨round, hround, hmem⟩ := Manager.mem_observations hrecord
  obtain ⟨id, -, e, o, he, ho, rfl⟩ := Manager.mem_records hmem
  exact observation?_apart (h round hround id e he) ho

/-- A record that was collected from sound rounds is apart exactly if what its observations contribute is
compatible. -/
theorem Manager.apart_iff_compatible {m : Manager} {rounds : List Round}
    (h : ∀ round ∈ rounds, round.Sound w) :
    ∀ r ∈ ChangeRecord.absorbAll [] (m.observations rounds),
      r.diff.Apart ↔
        Compatible (contributions (about r.entity (m.observations rounds))) := by
  intro r hr
  apply ChangeRecord.apart_iff_compatible ?_ ?_ hr
  · intro o ho
    obtain ⟨round, hround, hmem⟩ := Manager.mem_observations ho
    exact records_sound (h round hround) o hmem
  · intro o ho
    obtain ⟨round, -, hmem⟩ := Manager.mem_observations ho
    exact m.records_discreet round.store round.ids o hmem

/-- One observation never reports an attribute both as a plain change and as a nested diff, at any level.
A record does so, in the accumulator, in what is collected after any round, and in an event of the commit,
exactly if among what its observations contribute one has a plain change where another one has a nested
diff. -/
theorem one_place_iff {s : Session} (h : s.Sound w) (hempty : s.work.accumulated = [])
    {steps : List Step} (hsteps : ∀ step ∈ steps, step.Sound w) :
    (∀ o ∈ s.work.manager.observations (s.rounds steps), o.diff.Apart) ∧
    (∀ r ∈ (s.run steps).work.accumulated, r.diff.Apart ↔
      Compatible (contributions
        (about r.entity (s.work.manager.observations (s.rounds steps))))) ∧
    (∀ (last : Round) (next : Transaction) (records : List ChangeRecord), last.Sound w →
      s.work.manager.collect last.store (s.run steps).work.transaction last.ids =
        .ok (next, records) →
      ∀ r ∈ records, r.diff.Apart ↔
        Compatible (contributions
          (about r.entity (s.work.manager.observations (s.rounds steps ++ [last]))))) ∧
    ∀ events, ((s.run steps).work.commit (s.run steps).store).result = .ok events →
      ∀ event ∈ events, event.payload.diff.Apart ↔
        Compatible (contributions (about event.source
          (s.work.manager.observations (s.rounds steps ++ [(s.run steps).round])))) := by
  have hrounds := h.rounds hsteps
  have hcollected : ∀ (last : Round) (next : Transaction) (records : List ChangeRecord),
      last.Sound w →
      s.work.manager.collect last.store (s.run steps).work.transaction last.ids =
        .ok (next, records) →
      ∀ r ∈ records, r.diff.Apart ↔
        Compatible (contributions (about r.entity
          (s.work.manager.observations (s.rounds steps ++ [last])))) := by
    intro last next records hlast hcollect
    rcases Session.collect_run hempty hcollect with rfl | rfl
    · simp
    · apply Manager.apart_iff_compatible
      intro round hround
      rcases List.mem_append.mp hround with hround | hround
      · exact hrounds round hround
      · exact List.mem_singleton.mp hround ▸ hlast
  refine ⟨Manager.observations_apart hrounds, ?_, hcollected, ?_⟩
  · cases hobserves : s.observes with
    | false =>
        rw [Session.accumulated_run_of_not_observes hobserves, hempty]
        simp
    | true =>
        rw [Session.accumulated_run hobserves, hempty]
        exact Manager.apart_iff_compatible hrounds
  · intro events hcommit event hevent
    obtain ⟨next, records, hcollect, rfl⟩ := UnitOfWork.commit_ok hcommit
    obtain ⟨record, hrecord, rfl⟩ := List.mem_map.mp hevent
    rw [Session.manager_run] at hcollect
    exact hcollected (s.run steps).round next records (h.run hsteps).entities hcollect record hrecord

/-- Who only moves from one address to another has nested diffs merged into nested diffs. -/
theorem resident_moves_apart :
    ∃ r ∈ ((Session.start [Sample.resident]).run Sample.relocation).work.accumulated,
      ["address", "city"] ∈ r.diff.plainPlaces ∧ r.diff.Apart := by
  have hiff := (one_place_iff (Sample.start_sound_of (Sample.resident_sound 0)) rfl
    Sample.relocation_sound).2.1
  refine ⟨_, List.mem_cons_self, by decide +kernel, (hiff _ List.mem_cons_self).mpr ?_⟩
  decide +kernel

/-- The address of a new person is named as a plain change, and stays one when the snapshot of the
deleted person brings a nested diff. -/
theorem address_in_two_places :
    ∃ r ∈ ((Session.start [Sample.resident]).run
        [.persist 0, .flush, .remove 0, .flush]).work.accumulated,
      ["address"] ∈ r.diff.plainPlaces ∧ ["address"] ∈ r.diff.nestedPlaces ∧ ¬ r.diff.Apart := by
  refine ⟨_, List.mem_cons_self, ?_, ?_, ?_⟩
  · decide +kernel
  · decide +kernel
  · decide +kernel

end Chronicle
