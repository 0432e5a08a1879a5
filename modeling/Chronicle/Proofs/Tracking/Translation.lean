import Chronicle.Proofs.Tracking.Undo

/-!
# Translating change sets

The diff of a change set that was recorded has every attribute of the change set exactly once and no
other one. What changed in an embedded object is translated in the same way, an old embedded object
becomes its snapshot, and any other old value is detached.

## Implementation notes

A source is asked for its names first and then for each name, so that a name with two entries would
bring the first one twice. Recorded change sets have no such name at any depth: this is part of the shape
that recording keeps.
-/

namespace Chronicle

open Diff (plainOld?)

namespace ChangeSet

/-- The shape of recorded change sets: what changed in an embedded object stands with the object and is
not empty. -/
def Shape.recorded : Shape :=
  ⟨fun _ => True, fun _ => True, fun before nested => before.IsEmbedded ∧ nested ≠ .nil⟩

/-- A change set in which changes are recorded one after the other. -/
def recordCalls (set : ChangeSet) (calls : List PropertyChange) : ChangeSet :=
  calls.foldl (fun set call => set.record call.property call.old call.new) set

/-- The change sets in a change set: itself, and what changed in embedded objects at any depth. -/
inductive Contains (set : ChangeSet) : ChangeSet → Prop where
  | self : Contains set set
  | nested {inner nested : ChangeSet} {name : String} {before : Value} : Contains set inner →
    inner.get? name = some (.aggregate before nested) → Contains set nested

/-- Whether a diff keeps what a change set holds: each name once, as a plain change or as a nested diff,
and no other name, the plain changes in the order of the entries, and under each name what its entry is
translated to. -/
structure Translates (set : ChangeSet) (d : Diff) : Prop where
  distinct : d.topNames.Nodup
  names : d.topNames.Perm set.names
  order : d.plainNames.Sublist set.names
  aggregate : ∀ {name : String} {before : Value} {nested : ChangeSet},
    set.get? name = some (.aggregate before nested) → d.nested? name = some nested.recording.diff
  embedded : ∀ {name : String} {object : Object},
    set.get? name = some (.direct object.toValue) → d.nested? name = some object.snapshot
  plain : ∀ {name : String} {old : Value}, set.get? name = some (.direct old) → ¬ old.IsEmbedded →
    plainOld? d.changes name = some old.detach

/-! ## Recording -/

/-- Taking over another change set adds names after the known ones. -/
theorem names_mergeFirst (set other : ChangeSet) : set.names <+: (set.mergeFirst other).names := by
  have happend : ∀ (set : ChangeSet) (attr : String) (entry : Entry),
      set.names <+: (set.append attr entry).names := by
    intro set attr entry
    rw [names_append]
    exact List.prefix_append _ _
  induction other generalizing set with
  | nil => exact List.prefix_rfl
  | direct n old rest ih =>
      rw [mergeFirst]
      split
      · exact ih set
      · exact (happend set n _).trans (ih _)
  | aggregate n before nested rest _ ih =>
      rw [mergeFirst]
      split
      · rename_i first known _
        have hprefix := ih (set.replace n (.aggregate first (known.mergeFirst nested)))
        rwa [names_replace] at hprefix
      · exact ih set
      · exact (happend set n _).trans (ih _)

theorem mergeFirst_ne_nil {set : ChangeSet} (h : set ≠ nil) (other : ChangeSet) :
    set.mergeFirst other ≠ nil := by
  obtain ⟨name, hname⟩ := exists_mem_names (mt set.isEmpty_iff.mp h)
  intro hnil
  have hmem := (names_mergeFirst set other).subset hname
  rw [hnil] at hmem
  cases hmem

theorem lasting_recorded : Shape.recorded.Lasting where
  fieldName _ _ _ := trivial
  part _ _ _ := trivial
  fresh hbefore hnested := ⟨hbefore, hnested⟩
  grown hchanged nested := ⟨hchanged.1, mergeFirst_ne_nil hchanged.2 nested⟩

theorem HasShape.recordCalls {set : ChangeSet} (h : set.HasShape .recorded)
    (calls : List PropertyChange) : (set.recordCalls calls).HasShape .recorded := by
  induction calls generalizing set with
  | nil => exact h
  | cons call rest ih => exact ih (h.record lasting_recorded trivial trivial call.new)

theorem HasShape.of_contains {shape : Shape} {set inner : ChangeSet} (h : set.HasShape shape)
    (hinner : set.Contains inner) : inner.HasShape shape := by
  induction hinner with
  | self => exact h
  | nested _ hentry ih => exact (ih.get? hentry).2.2.2

/-- Noting a change leaves the names, or adds a new one after them. -/
theorem names_note (set : ChangeSet) (attr : String) (old new : Value) (nested : ChangeSet) :
    (set.note attr old new nested).names = set.names ∨
      attr ∉ set.names ∧ (set.note attr old new nested).names = set.names ++ [attr] := by
  unfold note
  by_cases hsame : old.same new = true
  · rw [if_pos hsame]
    exact Or.inl rfl
  · rw [if_neg hsame]
    split
    · rename_i hknown
      split_ifs
      · exact Or.inl rfl
      · exact Or.inr ⟨(set.get?_eq_none_iff attr).mp hknown, names_append ..⟩
    · rename_i hknown _
      exact Or.inr ⟨(set.get?_eq_none_iff attr).mp hknown, names_append ..⟩
    · exact Or.inl rfl
    · exact Or.inl (names_replace ..)
    · exact Or.inl (names_replace ..)

/-- Recording adds names after the known ones, in the order of the calls. -/
theorem names_recordCalls (set : ChangeSet) (calls : List PropertyChange) :
    ∃ later, later.Sublist (calls.map PropertyChange.property) ∧
      (set.recordCalls calls).names = set.names ++ later := by
  induction calls generalizing set with
  | nil => exact ⟨[], List.Sublist.refl _, (List.append_nil _).symm⟩
  | cons call rest ih =>
      obtain ⟨later, hlater, hnames⟩ := ih (set.record call.property call.old call.new)
      rcases names_note set call.property call.old call.new (between call.old call.new) with
        hrecord | ⟨-, hrecord⟩
      · refine ⟨later, hlater.cons _, hnames.trans ?_⟩
        rw [record, hrecord]
      · refine ⟨call.property :: later, hlater.cons_cons _, hnames.trans ?_⟩
        rw [record, hrecord, List.append_assoc, List.singleton_append]

/-! ## Translation -/

/-- The diff of a change set with distinct names is a translation of it. -/
theorem translates_recording {set : ChangeSet} (h : set.names.Nodup) :
    set.Translates set.recording.diff := by
  have hdistinct : set.recording.diff.topNames.Nodup :=
    set.recording.diff_follows.nodup_topNames set.recording.diff_orderly
  constructor
  case distinct => exact hdistinct
  case names => exact (List.perm_ext_iff_of_nodup hdistinct h).mpr set.mem_topNames_recording
  case order =>
    rw [← names_recording, ← Recording.map_fst_pieces]
    exact Piece.plainNames_diffOf set.recording.pieces
  case aggregate => exact nested?_recording
  case embedded => exact nested?_recording
  case plain => exact plainOld?_recording

end ChangeSet

open ChangeSet in
/-- Whatever calls were recorded, the diff of the change set is a translation of it, and so is the diff of
every change set in it: each recorded name stands in it once, as a plain change or as a nested diff, and
no other name does. The names are those of calls, in the order in which they were recorded first. -/
theorem recorded_translates (calls : List PropertyChange) :
    (∀ inner, (nil.recordCalls calls).Contains inner →
      inner.names.Nodup ∧ inner.Translates inner.recording.diff) ∧
    ∀ first rest, calls = first ++ rest →
      ∃ later, later.Sublist (rest.map PropertyChange.property) ∧
        (nil.recordCalls calls).names = (nil.recordCalls first).names ++ later := by
  constructor
  · intro inner hinner
    have hnil : nil.HasShape .recorded := trivial
    have hrecorded : (nil.recordCalls calls).HasShape .recorded := hnil.recordCalls calls
    have hnodup : inner.names.Nodup := (hrecorded.of_contains hinner).nodup
    exact ⟨hnodup, translates_recording hnodup⟩
  · rintro first rest rfl
    have hrun : nil.recordCalls (first ++ rest) = (nil.recordCalls first).recordCalls rest :=
      List.foldl_append
    rw [hrun]
    exact names_recordCalls (nil.recordCalls first) rest

namespace Sample

/-- What is recorded of someone who grows older, whose place gets another survey, and who loses the
address. -/
def upheaval : List PropertyChange :=
  [⟨"age", .scalar (.int 30), .scalar (.int 31)⟩, ⟨"place", place (survey "a"), place (survey "b")⟩,
    ⟨"address", addressIn "Paris", .null⟩, ⟨"age", .scalar (.int 31), .scalar (.int 32)⟩]

end Sample

open ChangeSet Sample in
/-- A survey is found two levels below the place, and the address as the snapshot of what it was. -/
theorem upheaval_translated :
    (∃ inner, (nil.recordCalls upheaval).Contains inner ∧ inner.names = ["code"] ∧
      plainOld? inner.recording.diff.changes "code" = some (.scalar (.text "a"))) ∧
    (nil.recordCalls upheaval).recording.diff.topNames.Perm ["age", "place", "address"] ∧
    (nil.recordCalls upheaval).recording.diff.plainNames = ["age"] ∧
    (nil.recordCalls upheaval).recording.diff.nested? "address" =
      some (addressIn "Paris").snapshot := by
  obtain ⟨htranslates, -⟩ := recorded_translates upheaval
  obtain ⟨-, htop⟩ := htranslates _ .self
  have hplace : (nil.recordCalls upheaval).get? "place" =
      some (.aggregate (place (survey "a")) (between (place (survey "a")) (place (survey "b")))) := rfl
  have hsurvey : (between (place (survey "a")) (place (survey "b"))).get? "datum" =
      some (.aggregate (survey "a") (between (survey "a") (survey "b"))) := rfl
  have hcode : (between (survey "a") (survey "b")).get? "code" =
      some (.direct (.scalar (.text "a"))) := rfl
  have hinner := (Contains.self.nested hplace).nested hsurvey
  refine ⟨⟨_, hinner, ?_, (htranslates _ hinner).2.plain hcode id⟩, ?_, ?_, ?_⟩
  · decide +kernel
  · exact htop.names
  · decide +kernel
  · exact htop.embedded rfl

end Chronicle
