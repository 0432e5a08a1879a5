import Chronicle.Proofs.Diff.Place
import Chronicle.Proofs.Tracking.Snapshot

/-!
# Deletions among the observations

What a deletion does to the record of an entity, and what becomes of it under later observations. A
record that is deleted stays so, and at every path it holds what was observed last.

## Implementation notes

Merging adds and replaces but never takes anything away. So a snapshot has the last word on its own
paths only until one of them is observed again, and what lies outside of it, such as an attribute that
can only be read, keeps what was observed earlier.
-/

namespace Chronicle

namespace Diff

/-- The part of a path that names an attribute of the object itself. -/
def leading (path : String) : String := ((splitPath path).map Prod.fst).getD path

theorem leading_of_dotless {path : String} (h : Dotless path) : leading path = path := by
  rw [leading, splitPath_eq_none.mpr h]
  rfl

theorem leading_of_split {path head tail : String} (h : splitPath path = some (head, tail)) :
    leading path = head := by
  rw [leading, h]
  rfl

theorem leading_mem_topNames {d : Diff} (h : d.Proper Dotless) {path : String}
    (hpath : d.oldValue? path ≠ none) : leading path ∈ d.topNames := by
  rw [← Option.isSome_iff_ne_none] at hpath
  unfold leading topNames
  rw [List.mem_append]
  cases hsplit : splitPath path with
  | none =>
      rw [oldValue?_of_dotless d (splitPath_eq_none.mp hsplit), plainOld?_isSome_iff] at hpath
      exact Or.inl hpath
  | some ends =>
      obtain ⟨head, tail⟩ := ends
      rw [oldValue?_of_split h hsplit] at hpath
      refine Or.inr ((nested?_isSome_iff d head).mp ?_)
      cases hnested : d.nested? head with
      | none =>
          rw [hnested] at hpath
          cases hpath
      | some inner => rfl

/-- Whether on the way of a path an attribute has a plain change in one of two diffs and a nested diff in the
other one. -/
inductive ClashOn : Diff → Diff → String → Prop where
  | here {a b : Diff} {path : String} :
      leading path ∈ a.plainNames ∧ leading path ∈ b.nestedNames ∨
        leading path ∈ a.nestedNames ∧ leading path ∈ b.plainNames → ClashOn a b path
  | within {a b first second : Diff} {path head tail : String} :
      splitPath path = some (head, tail) → a.nested? head = some first →
      b.nested? head = some second → ClashOn first second tail → ClashOn a b path

/-- Where two diffs clash there is a place of which they have both kinds. -/
theorem ClashOn.exists_place {a b : Diff} {path : String} (h : ClashOn a b path)
    (ha : a.Proper Dotless) (hb : b.Proper Dotless) :
    ∃ place, place ∈ a.plainPlaces ∧ place ∈ b.nestedPlaces ∨
      place ∈ a.nestedPlaces ∧ place ∈ b.plainPlaces := by
  induction h with
  | @here a b path hnames =>
      have hplace : ∀ (names : Diff → List String) {d : Diff}, d.Proper Dotless →
          leading path ∈ names d → [leading path] ∈ d.places names :=
        fun _ _ hd hname => (cons_mem_places hd _ []).mpr (Or.inl ⟨hname, rfl⟩)
      exact ⟨[leading path], hnames.imp
        (fun h => ⟨hplace plainNames ha h.1, hplace nestedNames hb h.2⟩)
        fun h => ⟨hplace nestedNames ha h.1, hplace plainNames hb h.2⟩⟩
  | @within a b first second path head tail _ hfirst hsecond _ ih =>
      have hplace : ∀ (names : Diff → List String) {d inner : Diff} {place : List String},
          d.Proper Dotless → d.nested? head = some inner → place ∈ inner.places names →
          head :: place ∈ d.places names :=
        fun _ _ _ _ hd hinner h => (cons_mem_places hd head _).mpr (Or.inr ⟨_, hinner, h⟩)
      obtain ⟨place, hboth⟩ := ih (ha.nested hfirst).2 (hb.nested hsecond).2
      exact ⟨head :: place, hboth.imp
        (fun h => ⟨hplace plainNames ha hfirst h.1, hplace nestedNames hb hsecond h.2⟩)
        fun h => ⟨hplace nestedNames ha hfirst h.1, hplace plainNames hb hsecond h.2⟩⟩

theorem Compatible.not_clashOn {a b : Diff} (h : Compatible [a, b]) (ha : a.Proper Dotless)
    (hb : b.Proper Dotless) (path : String) : ¬ ClashOn a b path := by
  intro hclash
  obtain ⟨place, ⟨hplain, hnested⟩ | ⟨hnested, hplain⟩⟩ := hclash.exists_place ha hb
  · exact h a (by simp) b (by simp) place hplain hnested
  · exact h b (by simp) a (by simp) place hplain hnested

end Diff

variable {w : World} {id : EntityId}

/-! ## What a snapshot leaves out -/

namespace Value

/-- Whether a path leads, possibly through embedded objects, to a name that no writable property has. -/
inductive LeftOut : Value → String → Prop where
  | here {type : EntityType} {values : List Value} {path : String} :
      (∀ field value, (field, value) ∈ type.fields.zip values → field.Writable →
        field.name ≠ Diff.leading path) → LeftOut (.embedded type values) path
  | within {type : EntityType} {values : List Value} {field : Field} {inner : Value}
      {path tail : String} : (field, inner) ∈ type.fields.zip values →
      Diff.splitPath path = some (field.name, tail) → LeftOut inner tail →
      LeftOut (.embedded type values) path

/-- Whether the fields of an embedded object are well-named, and its values sound. -/
def SoundWithin (w : World) : Value → Prop
  | .embedded type values => type.WellNamed ∧ ∀ value ∈ values, value.Sound w
  | _ => True

theorem Sound.within {value : Value} (h : value.Sound w) : value.SoundWithin w := by
  cases value with
  | embedded type values => exact ⟨h.wellNamed, fun _ hvalue => h.2.of_mem hvalue⟩
  | _ => trivial

theorem SoundWithin.part {type : EntityType} {values : List Value} {field : Field} {value : Value}
    (h : (embedded type values).SoundWithin w) (hfield : (field, value) ∈ type.fields.zip values) :
    value.Sound w := h.2 value (List.of_mem_zip hfield).2

theorem SoundWithin.snapshot_proper {value : Value} (h : value.SoundWithin w) :
    value.snapshot.Proper Dotless := by
  cases value with
  | embedded type values =>
      exact snapshotFields_proper_of_forall h.1.2
        (fun part hpart => Value.snapshot_proper part (h.2 part hpart)) Diff.proper_empty
  | _ => exact Diff.proper_empty

/-- A snapshot has nothing at a path that it leaves out. -/
theorem LeftOut.oldValue?_snapshot {object : Value} {path : String} (h : object.LeftOut path)
    (hobject : object.SoundWithin w) : object.snapshot.oldValue? path = none := by
  induction h with
  | @here type values path hnone =>
      by_contra hsome
      obtain ⟨field, value, hfield, hwritable, hname⟩ := (mem_topNames_snapshot hobject.1 values _).mp
        (Diff.leading_mem_topNames hobject.snapshot_proper hsome)
      exact hnone field value hfield hwritable hname
  | @within type values field inner path tail hfield hsplit hinner ih =>
      rw [Diff.oldValue?_of_split hobject.snapshot_proper hsplit]
      by_cases hwritable : field.Writable
      · rw [nested?_snapshot hobject.1 hfield hwritable]
        cases hinner <;> exact ih (hobject.part hfield).within
      · rw [nested?_snapshot_of_not_writable hobject.1 hfield hwritable]
        rfl

section Clashes

variable {type : EntityType} {values : List Value} {field : Field} {value : Value} {d : Diff}
  {path tail : String}

/-- A change of a whole property of which a snapshot has none clashes with a nested diff there. -/
theorem clashOn_of_dotless (hobject : (embedded type values).SoundWithin w)
    (hfield : (field, value) ∈ type.fields.zip values) (hwritable : field.Writable)
    (hdotless : Dotless field.name) (hpath : d.oldValue? field.name ≠ none)
    (hmissing : (embedded type values).snapshot.oldValue? field.name = none) :
    d.ClashOn (embedded type values).snapshot field.name := by
  have hplain := plainOld?_snapshot hobject.1 hfield hwritable
  rw [Diff.oldValue?_of_dotless _ hdotless] at hpath hmissing
  refine .here (Or.inl ?_)
  rw [Diff.leading_of_dotless hdotless]
  refine ⟨(Diff.plainOld?_isSome_iff _ _).mp (Option.isSome_iff_ne_none.mpr hpath),
    (Diff.nested?_isSome_iff _ _).mp ?_⟩
  rw [nested?_snapshot hobject.1 hfield hwritable]
  -- The snapshot has a change of every property that is no embedded object.
  cases value <;> first | rfl | exact absurd (hplain.symm.trans hmissing) nofun

/-- A nested diff of a property that is no embedded object clashes with the snapshot's change of it. -/
theorem clashOn_of_split (hobject : (embedded type values).SoundWithin w)
    (hfield : (field, value) ∈ type.fields.zip values) (hwritable : field.Writable)
    (hvalue : ¬ value.IsEmbedded) (hsplit : Diff.splitPath path = some (field.name, tail))
    (hnested : (d.nested? field.name).isSome = true) :
    d.ClashOn (embedded type values).snapshot path := by
  refine .here (Or.inr ?_)
  rw [Diff.leading_of_split hsplit]
  refine ⟨(Diff.nested?_isSome_iff _ _).mp hnested, (Diff.plainOld?_isSome_iff _ _).mp ?_⟩
  rw [plainOld?_snapshot hobject.1 hfield hwritable, kept?_of_not_embedded hvalue]
  rfl

end Clashes

/-- What a diff has and a snapshot has not is at a path that the snapshot leaves out, if the two clash
nowhere on its way. -/
theorem leftOut_of_oldValue? (object : Value) (hembedded : object.IsEmbedded)
    (hobject : object.SoundWithin w) {d : Diff} (hd : d.Proper Dotless) {path : String}
    (hpath : d.oldValue? path ≠ none) (hmissing : object.snapshot.oldValue? path = none)
    (hclash : ¬ d.ClashOn object.snapshot path) : object.LeftOut path := by
  induction object using inductionOnParts generalizing d path with
  | flat object hflat => exact absurd hembedded hflat
  | embedded type values ih =>
      by_cases hnamed : Diff.leading path ∈ (embedded type values).snapshot.topNames
      · obtain ⟨field, value, hfield, hwritable, hname⟩ :=
          (mem_topNames_snapshot hobject.1 values _).mp hnamed
        cases hsplit : Diff.splitPath path with
        | none =>
            have hdotless := Diff.splitPath_eq_none.mp hsplit
            obtain rfl : field.name = path := hname.trans (Diff.leading_of_dotless hdotless)
            exact absurd (clashOn_of_dotless hobject hfield hwritable hdotless hpath hmissing) hclash
        | some ends =>
            obtain ⟨head, tail⟩ := ends
            obtain rfl : field.name = head := hname.trans (Diff.leading_of_split hsplit)
            rw [Diff.oldValue?_of_split hd hsplit] at hpath
            obtain ⟨inner, hinner, hrecorded⟩ :
                ∃ inner, d.nested? field.name = some inner ∧ inner.oldValue? tail ≠ none := by
              cases hinner : d.nested? field.name with
              | none => simp [hinner] at hpath
              | some inner => exact ⟨inner, rfl, by simpa [hinner] using hpath⟩
            by_cases hvalue : value.IsEmbedded
            · obtain ⟨innerType, parts, rfl⟩ := hvalue.exists_eq
              have hnested := nested?_snapshot hobject.1 hfield hwritable
              rw [Diff.oldValue?_of_split hobject.snapshot_proper hsplit, hnested] at hmissing
              exact .within hfield hsplit (ih _ (List.of_mem_zip hfield).2 trivial
                (hobject.part hfield).within (hd.nested hinner).2 hrecorded hmissing
                fun h => hclash (.within hsplit hinner hnested h))
            · exact absurd (clashOn_of_split hobject hfield hwritable hvalue hsplit
                (Option.isSome_of_mem hinner)) hclash
      · refine .here fun field value hfield hwritable hname => hnamed ?_
        exact (mem_topNames_snapshot hobject.1 values _).mpr ⟨field, value, hfield, hwritable, hname⟩

end Value

namespace Manager

/-- What is observed about a deleted entity is its snapshot. -/
theorem observation?_deleted {m : Manager} {e : Entity} {o : Observation}
    (h : m.observation? id e = some o) (hdeleted : o.record.type = .deleted) :
    o.record.diff = e.object.snapshot := by
  obtain ⟨-, ⟨-, htype, -⟩ | ⟨-, listener, -, ⟨-, -, hdiff⟩ | ⟨-, -, htype, -⟩⟩⟩ :=
    observation?_cases h
  · rw [htype] at hdeleted
    cases hdeleted
  · exact hdiff
  · rw [htype] at hdeleted
    cases hdeleted

end Manager

namespace ChangeRecord

/-- What later observations leave of a deleted record: at every path the last old value observed. -/
theorem foldl_merge_deleted {record : ChangeRecord} {observed : List ChangeRecord}
    (h : record.Sound) (hobserved : ∀ later ∈ observed, later.Sound)
    (hdeleted : record.type = .deleted) :
    (observed.foldl merge record).type = .deleted ∧ (observed.foldl merge record).Sound ∧
      ∀ path, (observed.foldl merge record).diff.oldValue? path =
        (observed.reverse.findSome? fun later => later.diff.oldValue? path).or
          (record.diff.oldValue? path) := by
  induction observed generalizing record with
  | nil => exact ⟨hdeleted, h, fun _ => rfl⟩
  | cons later rest ih =>
      rw [List.forall_mem_cons] at hobserved
      have htype : (record.merge later).type = .deleted := type_merge_of_deleted (Or.inl hdeleted)
      obtain ⟨hrest, hsound, hpaths⟩ := ih (h.merge hobserved.1) hobserved.2 htype
      refine ⟨hrest, hsound, fun path => ?_⟩
      have hdiff : (record.merge later).diff = record.diff.merge later.diff :=
        diff_merge (by rw [htype]; exact ChangeType.noConfusion)
      rw [List.foldl_cons, hpaths, hdiff, Diff.oldValue?_merge h hobserved.1, List.reverse_cons,
        List.findSome?_append, Option.or_assoc]
      simp

/-- A later observation of a deletion decides all paths of its snapshot; any other path of the merged
diff is one that was recorded before, with the value that was recorded. -/
theorem merge_deleted {record later : ChangeRecord} (h : record.Sound) (hl : later.Sound)
    (hdeleted : later.type = .deleted) :
    (record.merge later).type = .deleted ∧
      ∀ path, (record.merge later).diff.oldValue? path =
        (later.diff.oldValue? path).or (record.diff.oldValue? path) := by
  have htype : (record.merge later).type = .deleted := type_merge_of_deleted (Or.inr hdeleted)
  refine ⟨htype, fun path => ?_⟩
  rw [diff_merge (by rw [htype]; exact ChangeType.noConfusion), Diff.oldValue?_merge h hl]

end ChangeRecord

namespace Session

/-- The record of an entity after steps is what the observations in them make of the record before. -/
theorem record?_run {s : Session} (hs : s.Sound w) {steps : List Step}
    (hsteps : ∀ step ∈ steps, step.Sound w) {record : ChangeRecord}
    (hrecord : s.record? id = some record) :
    (s.run steps).record? id = some ((s.observedIn id steps).foldl ChangeRecord.merge record) ∧
      ∀ later ∈ s.observedIn id steps, later.Sound := by
  induction steps generalizing s record with
  | nil => exact ⟨hrecord, by simp [observedIn]⟩
  | cons step rest ih =>
      rw [List.forall_mem_cons] at hsteps
      have hnext := record?_step hs.tracked id step
      rw [hrecord] at hnext
      cases hobserved : s.observedBy? id step with
      | none =>
          rw [hobserved] at hnext
          simpa [observedIn, hobserved] using ih (hs.step hsteps.1) hsteps.2 hnext
      | some later =>
          rw [hobserved] at hnext
          obtain ⟨hrun, hsound⟩ := ih (hs.step hsteps.1) hsteps.2 hnext
          refine ⟨?_, ?_⟩
          · rw [run_cons, hrun]
            simp [observedIn, hobserved, ChangeRecord.update]
          · simpa [observedIn, hobserved] using ⟨(hs.observedBy? hobserved).1, hsound⟩

/-- A flush that observes an entity as deleted leaves a deleted record with the snapshot's values. -/
theorem record?_flush_deleted {s : Session} (hs : s.Sound w) {e : Entity} {deletion : ChangeRecord}
    (he : s.store.get? id = some e) (hdeletion : s.observed? id = some deletion)
    (hdeleted : deletion.type = .deleted) :
    ∃ record : ChangeRecord, (s.step .flush).record? id = some record ∧ record.Sound ∧
      record.type = .deleted ∧ ∀ path, (e.object.snapshot.oldValue? path).isSome →
        record.diff.oldValue? path = e.object.snapshot.oldValue? path := by
  have hstep := record?_step hs.tracked id .flush
  change _ = (s.observed? id).elim _ _ at hstep
  rw [hdeletion] at hstep
  have hlater : deletion.Sound :=
    (hs.observedBy? (show s.observedBy? id .flush = some deletion from hdeletion)).1
  have hdiff : deletion.diff = e.object.snapshot := by
    unfold observed? at hdeletion
    split_ifs at hdeletion
    rw [he, Option.bind_some] at hdeletion
    obtain ⟨o, ho, rfl⟩ := Option.map_eq_some_iff.mp hdeletion
    exact Manager.observation?_deleted ho hdeleted
  cases hrecord : s.record? id with
  | none =>
      rw [hrecord] at hstep
      exact ⟨deletion, hstep, hlater, hdeleted, fun path _ => by rw [hdiff]⟩
  | some record =>
      rw [hrecord] at hstep
      have hsound := hs.record? hrecord
      obtain ⟨htype, hpaths⟩ := ChangeRecord.merge_deleted hsound hlater hdeleted
      refine ⟨record.merge deletion, hstep, hsound.merge hlater, htype, fun path hpath => ?_⟩
      rw [hpaths, hdiff]
      exact Option.or_of_isSome hpath

end Session

/-- When an entity is observed as deleted, its record becomes deleted and takes the old value of every
path of the snapshot from the snapshot. At a path that the snapshot leaves out, since no writable property
is there, it stays as it was recorded before. At any other path it is as the snapshot, unless on the way of
the path an attribute has a plain change in one of the two and a nested diff in the other. -/
theorem deletion_overrides_snapshot {s : Session} (hs : s.Sound w) {steps : List Step}
    (hsteps : ∀ step ∈ steps, step.Sound w) {record : ChangeRecord}
    (hrecord : record ∈ (s.run steps).work.accumulated) {m : Manager} {e : Entity} {o : Observation}
    (he : e.Sound w record.entity) (ho : m.observation? record.entity e = some o)
    (hdeleted : o.record.type = .deleted) :
    ∃ merged : ChangeRecord,
      ChangeRecord.of? record.entity
        (ChangeRecord.absorb (s.run steps).work.accumulated o.record) = some merged ∧
      merged.type = .deleted ∧
      (∀ path ∈ e.object.snapshot.attributes, path ∈ merged.diff.attributes ∧
        merged.diff.oldValue? path = e.object.snapshot.oldValue? path) ∧
      (∀ path, e.object.toValue.LeftOut path →
        (path ∈ merged.diff.attributes ↔ path ∈ record.diff.attributes) ∧
          merged.diff.oldValue? path = record.diff.oldValue? path) ∧
      (∀ path, ¬ e.object.toValue.LeftOut path → ¬ record.diff.ClashOn e.object.snapshot path →
        (path ∈ merged.diff.attributes ↔ path ∈ e.object.snapshot.attributes) ∧
          merged.diff.oldValue? path = e.object.snapshot.oldValue? path) := by
  have hrun := hs.run hsteps
  have hsound : record.Sound := hrun.records record hrecord
  have hsnapshot := Manager.observation?_deleted ho hdeleted
  have hproper : e.object.snapshot.Proper Dotless := he.object.snapshot_proper
  have hlater : o.record.Sound := Manager.observation?_sound he ho
  have hmerged := hsound.merge hlater
  have hwithin : e.object.toValue.SoundWithin w :=
    ⟨he.object.wellNamed, fun _ hvalue => he.object.2.of_mem hvalue⟩
  obtain ⟨htype, hpaths⟩ := ChangeRecord.merge_deleted hsound hlater hdeleted
  rw [hsnapshot] at hpaths
  refine ⟨record.merge o.record, ?_, htype, ?_, ?_, ?_⟩
  · have hof : ChangeRecord.of? record.entity (s.run steps).work.accumulated = some record :=
      ChangeRecord.of?_of_mem hrun.distinct hrecord
    rw [ChangeRecord.of?_absorb, if_pos (Manager.observation?_entity ho), hof]
    rfl
  · intro path hpath
    obtain ⟨old, hold⟩ := Option.isSome_iff_exists.mp ((Diff.mem_attributes_iff hproper path).mp hpath)
    rw [Diff.mem_attributes_iff hmerged, hpaths, hold]
    exact ⟨rfl, rfl⟩
  · intro path hpath
    have hnone : e.object.snapshot.oldValue? path = none := hpath.oldValue?_snapshot hwithin
    rw [Diff.mem_attributes_iff hmerged, Diff.mem_attributes_iff hsound, hpaths, hnone, Option.none_or]
    exact ⟨Iff.rfl, rfl⟩
  · intro path hpath hclash
    have hvalue : (record.merge o.record).diff.oldValue? path = e.object.snapshot.oldValue? path := by
      rw [hpaths]
      cases hold : e.object.snapshot.oldValue? path with
      | some old => rfl
      | none =>
          rw [Option.none_or]
          by_contra hrecorded
          exact hpath (Value.leftOut_of_oldValue? e.object.toValue trivial hwithin hsound hrecorded hold
            hclash)
    rw [Diff.mem_attributes_iff hmerged, Diff.mem_attributes_iff hproper, hvalue]
    exact ⟨Iff.rfl, rfl⟩

namespace Sample

/-- What is done to a person who gets another creator and another address, and is removed after that. -/
def emigration : List Step :=
  [.attach 0, .call 0 setCreator (.scalar (.text "mallory")), .call 0 setAddress (addressIn "Rome"),
    .flush, .remove 0]

theorem emigration_sound : ∀ step ∈ emigration, step.Sound world := by
  have hcreator : setCreator.Sound world 0 := setters_sound setCreator_mem
  have haddress : setAddress.Sound world 0 := setters_sound setAddress_mem
  simp [emigration, Step.Sound, Value.Sound, hcreator, haddress, addressIn_sound]
  exact ⟨trivial, rfl⟩

end Sample

open Sample in
/-- The record of a removed person has the parts of the address from the snapshot and no change of the whole
address, and keeps the creator. -/
theorem deletion_overrides_snapshot_of_person :
    ∃ record ∈ ((Session.start [resident]).run emigration).work.accumulated, ∃ merged : ChangeRecord,
      record.diff.oldValue? "address.city" = some (.scalar (.text "Paris")) ∧
      merged.type = .deleted ∧
      merged.diff.oldValue? "address.city" = some (.scalar (.text "Rome")) ∧
      "address" ∉ merged.diff.attributes ∧
      merged.diff.oldValue? "created_by" = some .null := by
  have hstart := start_sound_of (resident_sound 0)
  have hruns : (((Session.start [resident]).run emigration).store.get? 0).any (fun e =>
      (({} : Manager).observation? 0 e).any fun o =>
        ((Session.start [resident]).run emigration).work.accumulated.any fun record =>
          decide (record.entity = 0 ∧ o.record.type = .deleted ∧
            record.diff.oldValue? "address.city" = some (.scalar (.text "Paris")) ∧
            record.diff.oldValue? "created_by" = some .null ∧
            "address.city" ∈ e.object.snapshot.attributes ∧
            e.object.snapshot.oldValue? "address.city" = some (.scalar (.text "Rome")) ∧
            "address" ∈ e.object.snapshot.topNames ∧ "address" ∉ e.object.snapshot.attributes ∧
            Diff.Compatible [record.diff, e.object.snapshot])) = true := by
    decide +kernel
  obtain ⟨e, he, hruns⟩ := (Option.any_eq_true _ _).mp hruns
  obtain ⟨o, ho, hruns⟩ := (Option.any_eq_true _ _).mp hruns
  obtain ⟨record, hrecord, hruns⟩ := List.any_eq_true.mp hruns
  obtain ⟨hentity, hdeleted, hcity, hcreator, hattribute, hsnapshot, hnamed, haddress, hcompatible⟩ :=
    of_decide_eq_true hruns
  have hrun := hstart.run emigration_sound
  have hsound : e.Sound world record.entity := hentity ▸ hrun.entities 0 e he
  obtain ⟨merged, -, htype, hover, hleft, hsame⟩ :=
    deletion_overrides_snapshot hstart emigration_sound hrecord hsound (hentity ▸ ho) hdeleted
  have hclash := hcompatible.not_clashOn (hrun.records record hrecord) hsound.object.snapshot_proper
  have hwhole : ¬ e.object.toValue.LeftOut "address" := by
    intro hleftOut
    obtain ⟨field, value, hfield, hwritable, hname⟩ :=
      (Value.mem_topNames_snapshot hsound.object.wellNamed e.object.values "address").mp hnamed
    have hsplit : Diff.splitPath "address" = none := by decide +kernel
    cases hleftOut with
    | here h => exact h field value hfield hwritable (by simp [Diff.leading, hsplit, hname])
    | within _ hpath _ => exact Option.some_ne_none _ (hpath.symm.trans hsplit)
  have hcreatorLeftOut : e.object.toValue.LeftOut "created_by" := by
    refine .here fun field value hfield hwritable => ?_
    have hfields : ∀ field ∈ person.fields, field.Writable →
        field.name ≠ Diff.leading "created_by" := by decide +kernel
    rw [hsound.object.1] at hfield
    exact hfields field (List.of_mem_zip hfield).1 hwritable
  refine ⟨record, hrecord, merged, hcity, htype, ?_, ?_, ?_⟩
  · rw [(hover _ hattribute).2, hsnapshot]
  · rw [(hsame "address" hwhole (hclash "address")).1]
    exact haddress
  · rw [(hleft "created_by" hcreatorLeftOut).2, hcreator]

/-- The snapshot of a person does not mention the creator, and the record of the deletion still does. -/
theorem creator_outlives_deletion :
    ∃ deletion merged : ChangeRecord,
      ((Session.start [Sample.ann]).run (Sample.recreation ++ Sample.removal)).observed? 0 =
        some deletion ∧
      deletion.type = .deleted ∧
      (((Session.start [Sample.ann]).run (Sample.recreation ++ Sample.removal)).step
        .flush).record? 0 = some merged ∧
      "created_by" ∉ deletion.diff.attributes ∧ deletion.diff.oldValue? "created_by" = none ∧
      "created_by" ∈ merged.diff.attributes ∧
      merged.diff.oldValue? "created_by" = some (.scalar (.text "eve")) := by
  refine ⟨_, _, rfl, rfl, rfl, ?_, ?_, ?_, ?_⟩ <;> decide +kernel

/-- After an entity was flushed as deleted its record stays deleted, whatever is done next. The paths of
the snapshot stay among its attributes, and at each of them it holds what the last observation of the
entity recorded at the path, which is what the snapshot holds as long as there is no such observation. -/
theorem deletion_keeps_last_observed {s : Session} (hs : s.Sound w) {earlier : List Step}
    (hearlier : ∀ step ∈ earlier, step.Sound w) {e : Entity} {deletion : ChangeRecord}
    (he : (s.run earlier).store.get? id = some e)
    (hdeletion : (s.run earlier).observed? id = some deletion) (hdeleted : deletion.type = .deleted)
    {steps : List Step} (hsteps : ∀ step ∈ steps, step.Sound w) :
    ∃ record : ChangeRecord,
      (((s.run earlier).step .flush).run steps).record? id = some record ∧
      record.type = .deleted ∧
      ∀ path ∈ e.object.snapshot.attributes, path ∈ record.diff.attributes ∧
        record.diff.oldValue? path =
          ((((s.run earlier).step .flush).observedIn id steps).reverse.findSome? fun later =>
            later.diff.oldValue? path).or (e.object.snapshot.oldValue? path) := by
  have hrun := hs.run hearlier
  have hproper : e.object.snapshot.Proper Dotless := (hrun.entities id e he).object.snapshot_proper
  obtain ⟨flushed, hflushed, hsound, htype, hsnapshot⟩ :=
    Session.record?_flush_deleted hrun he hdeletion hdeleted
  obtain ⟨hrecord, hobserved⟩ := Session.record?_run hrun.flush hsteps hflushed
  obtain ⟨hlast, hsoundlast, hpaths⟩ := ChangeRecord.foldl_merge_deleted hsound hobserved htype
  refine ⟨_, hrecord, hlast, fun path hpath => ?_⟩
  have hsome := (Diff.mem_attributes_iff hproper path).mp hpath
  have hvalue := (hpaths path).trans (congrArg _ (hsnapshot path hsome))
  refine ⟨?_, hvalue⟩
  rw [Diff.mem_attributes_iff hsoundlast, hvalue, Option.isSome_or, hsome, Bool.or_true]

theorem deletion_keeps_last_observed_of_person :
    ∃ record : ChangeRecord,
      ((((Session.start [Sample.ann]).run Sample.removal).step .flush).run
        Sample.recreation).record? 0 = some record ∧
      record.type = .deleted ∧ record.diff.oldValue? "name" = some (.scalar (.text "Ann")) := by
  have hobserved : ((Session.start [Sample.ann]).run Sample.removal).observed? 0 = some _ := rfl
  obtain ⟨record, hrecord, htype, hpaths⟩ :=
    deletion_keeps_last_observed Sample.start_sound Sample.removal_sound rfl hobserved rfl
      Sample.recreation_sound
  refine ⟨record, hrecord, htype, (hpaths "name" (by decide +kernel)).2.trans ?_⟩
  decide +kernel

/-- A removed person who is persisted again loses the name in the record of the deletion. -/
theorem name_lost_after_deletion :
    ∃ deleted record : ChangeRecord,
      (((Session.start [Sample.ann]).run Sample.removal).step .flush).record? 0 = some deleted ∧
      deleted.type = .deleted ∧ deleted.diff.oldValue? "name" = some (.scalar (.text "Ann")) ∧
      ((((Session.start [Sample.ann]).run Sample.removal).step .flush).run
        [.persist 0, .flush]).record? 0 = some record ∧
      record.type = .deleted ∧ record.diff.oldValue? "name" = some .null := by
  refine ⟨_, _, rfl, rfl, ?_, rfl, rfl, ?_⟩ <;> decide +kernel

end Chronicle
