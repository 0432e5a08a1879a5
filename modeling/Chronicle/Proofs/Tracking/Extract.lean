import Chronicle.Proofs.Diff.Place
import Chronicle.Proofs.Tracking.ChangeSet
import Chronicle.Tracking.Extract

/-!
# Extracted diffs

Every diff that is taken from sound objects and sound sources is proper, with names that contain no
dot. The diff of a source mentions exactly the attributes that the source names, its plain changes in the
order of the source, and holds under each name what is recorded for it: a nested diff, or the detached
old value.
-/

namespace Chronicle

open Diff (plainOld?)

variable {w : World} {id : EntityId}

namespace Value

@[simp] theorem snapshotFields_nil_left (values : List Value) (known : Diff) :
    snapshotFields [] values known = known := by
  simp [snapshotFields]

@[simp] theorem snapshotFields_nil_right (fields : List Field) (known : Diff) :
    snapshotFields fields [] known = known := by
  cases fields <;> simp [snapshotFields]

/-- A writable property adds its value to the snapshot, any other field is passed over. -/
theorem snapshotFields_cons (field : Field) (fields : List Field) (value : Value)
    (values : List Value) (known : Diff) :
    snapshotFields (field :: fields) (value :: values) known =
      snapshotFields fields values
        (if field.isProperty && !field.readOnly then value.addTo known field.name else known) := by
  cases value <;> simp [snapshotFields, addTo, snapshot]

theorem addTo_proper {legal : String → Prop} {diff : Diff} {name : String} {value : Value}
    (hdiff : diff.Proper legal) (hname : legal name) (hvalue : value.snapshot.Proper legal) :
    (value.addTo diff name).Proper legal := by
  cases value with
  | embedded type values => exact hdiff.addEmbedded hname hvalue
  | _ => exact hdiff.add hname

mutual

theorem snapshot_proper : ∀ value : Value, value.Sound w → value.snapshot.Proper Dotless
  | .null, _ => Diff.proper_empty
  | .scalar _, _ => Diff.proper_empty
  | .reference _, _ => Diff.proper_empty
  | .collection .., _ => Diff.proper_empty
  | .embedded type values, h =>
    snapshotFields_proper type.fields values .empty h.wellNamed.2 h.2 Diff.proper_empty

theorem snapshotFields_proper : ∀ (fields : List Field) (values : List Value) (known : Diff),
    (∀ name ∈ fields.map Field.name, Dotless name) → SoundFields w fields values →
    known.Proper Dotless → (snapshotFields fields values known).Proper Dotless
  | [], _, _, _, _, hknown => by
    rw [snapshotFields_nil_left]
    exact hknown
  | _ :: _, [], _, _, _, hknown => by
    rw [snapshotFields_nil_right]
    exact hknown
  | field :: fields, value :: values, known, hnames, hvalues, hknown => by
    obtain ⟨-, hvalue, hrest⟩ := hvalues
    have hname : Dotless field.name := hnames field.name (by simp)
    rw [snapshotFields_cons]
    apply snapshotFields_proper fields values _ (fun name hmem => hnames name (by simp [hmem])) hrest
    split_ifs
    · exact addTo_proper hknown hname (snapshot_proper value hvalue)
    · exact hknown

end

mutual

/-- Snapshots are orderly, whatever the names of the fields are. -/
theorem snapshot_orderly : ∀ value : Value, value.snapshot.Orderly
  | .null => Diff.proper_empty
  | .scalar _ => Diff.proper_empty
  | .reference _ => Diff.proper_empty
  | .collection .. => Diff.proper_empty
  | .embedded type values => snapshotFields_orderly type.fields values .empty Diff.proper_empty

theorem snapshotFields_orderly : ∀ (fields : List Field) (values : List Value) (known : Diff),
    known.Orderly → (snapshotFields fields values known).Orderly
  | [], _, _, hknown => by
    rw [snapshotFields_nil_left]
    exact hknown
  | _ :: _, [], _, hknown => by
    rw [snapshotFields_nil_right]
    exact hknown
  | field :: fields, value :: values, known, hknown => by
    rw [snapshotFields_cons]
    apply snapshotFields_orderly fields values
    split_ifs
    · exact addTo_proper hknown trivial (snapshot_orderly value)
    · exact hknown

end

theorem mem_topNames_addTo (diff : Diff) (key : String) (value : Value) (name : String) :
    name ∈ (value.addTo diff key).topNames ↔ name = key ∨ name ∈ diff.topNames := by
  cases value with
  | embedded type values => exact Diff.mem_topNames_addEmbedded diff key _ name
  | _ => exact Diff.mem_topNames_add diff _ name

end Value

namespace Object

theorem Sound.snapshot_proper {o : Object} (h : o.Sound w id) : o.snapshot.Proper Dotless :=
  Value.snapshotFields_proper o.type.fields o.values .empty h.wellNamed.2 h.2 Diff.proper_empty

theorem Sound.presence_proper {o : Object} (h : o.Sound w id) : o.presence.Proper Dotless := by
  apply Diff.proper_empty.addAll
  intro change hchange
  obtain ⟨property, hproperty, rfl⟩ := List.mem_map.mp hchange
  have hmem : property ∈ o.type.properties :=
    (List.mem_filter.mp (List.mem_filter.mp hproperty).1).1
  exact h.wellNamed.2 property.name (List.mem_map_of_mem (List.mem_filter.mp hmem).1)

theorem snapshot_orderly (o : Object) : o.snapshot.Orderly := o.toValue.snapshot_orderly

theorem presence_orderly (o : Object) : o.presence.Orderly :=
  Diff.proper_empty.addAll fun _ _ => trivial

end Object

namespace Piece

/-- Whether a piece holds a sound value or a proper diff. -/
def Sound (w : World) : Piece → Prop
  | .bare => True
  | .value old => old.Sound w
  | .nested diff _ => diff.Proper Dotless

/-- The nested diff that a piece adds, unless it adds a plain change. -/
def nested? : Piece → Option Diff
  | .value (.embedded type values) => some (Value.embedded type values).snapshot
  | .nested inner _ => some inner
  | _ => none

/-- A piece adds a plain change or a nested diff. -/
theorem addTo_cases (diff : Diff) (name : String) (piece : Piece) :
    (∃ inner, piece.nested? = some inner ∧ piece.addTo diff name = diff.addEmbedded name inner) ∨
      piece.nested? = none ∧ ∃ old, piece.addTo diff name = diff.add ⟨name, old⟩ := by
  cases piece with
  | bare => exact Or.inr ⟨rfl, .null, rfl⟩
  | value old =>
      cases old with
      | embedded type values => exact Or.inl ⟨_, rfl, rfl⟩
      | _ => exact Or.inr ⟨rfl, _, rfl⟩
  | nested inner warnings => exact Or.inl ⟨inner, rfl, rfl⟩

theorem Sound.addTo {diff : Diff} {name : String} {piece : Piece} (h : piece.Sound w)
    (hdiff : diff.Proper Dotless) (hname : Dotless name) :
    (piece.addTo diff name).Proper Dotless := by
  cases piece with
  | bare => exact hdiff.add hname
  | value old => exact Value.addTo_proper hdiff hname (old.snapshot_proper h)
  | nested inner warnings => exact hdiff.addEmbedded hname h

theorem mem_topNames_addTo (diff : Diff) (key : String) (piece : Piece) (name : String) :
    name ∈ (piece.addTo diff key).topNames ↔ name = key ∨ name ∈ diff.topNames := by
  obtain ⟨inner, -, hadd⟩ | ⟨-, old, hadd⟩ := addTo_cases diff key piece
  · rw [hadd]
    exact Diff.mem_topNames_addEmbedded diff key inner name
  · rw [hadd]
    exact Diff.mem_topNames_add diff ⟨key, old⟩ name

/-- Adding a piece under one name leaves the plain changes of all others. -/
theorem plainOld?_addTo_of_ne {diff : Diff} {key name : String} (piece : Piece) (h : key ≠ name) :
    plainOld? (piece.addTo diff key).changes name = plainOld? diff.changes name := by
  obtain ⟨inner, -, hadd⟩ | ⟨-, old, hadd⟩ := addTo_cases diff key piece
  · rw [hadd, Diff.addEmbedded, Diff.changes_upsert]
  · rw [hadd, Diff.add, Diff.changes_mapChanges, Diff.plainOld?_record, if_neg h]

/-- The plain change that a piece adds comes last, unless its name has one already. -/
theorem plainNames_addTo (diff : Diff) (key : String) (piece : Piece) :
    (piece.addTo diff key).plainNames.Sublist (diff.plainNames ++ [key]) := by
  obtain ⟨inner, -, hadd⟩ | ⟨-, old, hadd⟩ := addTo_cases diff key piece
  · rw [hadd, Diff.plainNames, Diff.addEmbedded, Diff.changes_upsert]
    exact List.sublist_append_left _ _
  · rw [hadd, Diff.plainNames, Diff.add, Diff.changes_mapChanges]
    exact Diff.names_record_sublist ⟨key, old⟩ diff.changes

/-- A name without a piece of its own brings a bare one. -/
theorem find_cases (pieces : List (String × Piece)) (name : String) :
    find pieces name = .bare ∨ (name, find pieces name) ∈ pieces := by
  unfold find
  cases hlookup : pieces.lookup name with
  | none => exact Or.inl rfl
  | some piece =>
      obtain ⟨before, after, rfl, -⟩ := List.lookup_eq_some_iff.mp hlookup
      exact Or.inr (by simp)

theorem find_sound {pieces : List (String × Piece)} (h : ∀ p ∈ pieces, p.2.Sound w)
    (name : String) : (find pieces name).Sound w := by
  rcases find_cases pieces name with hbare | hmem
  · rw [hbare]
    trivial
  · exact h _ hmem

/-- A nested diff that a name brings is one of the pieces'. -/
theorem find_nested {pieces : List (String × Piece)} {P : Diff → Prop}
    (h : ∀ p ∈ pieces, ∀ inner, p.2.nested? = some inner → P inner) {name : String} {inner : Diff}
    (hinner : (find pieces name).nested? = some inner) : P inner := by
  rcases find_cases pieces name with hbare | hmem
  · rw [hbare] at hinner
    cases hinner
  · exact h _ hmem inner hinner

/-- What the empty diff has and the pieces keep, their diff has. -/
theorem diffOf_induction {P : Diff → Prop} {pieces : List (String × Piece)} (hempty : P .empty)
    (hadd : ∀ p ∈ pieces, ∀ diff, P diff → P ((find pieces p.1).addTo diff p.1)) :
    P (diffOf pieces) := by
  have key : ∀ (rest : List (String × Piece)) (diff : Diff), (∀ p ∈ rest, p ∈ pieces) → P diff →
      P (rest.foldl (fun diff p => (find pieces p.1).addTo diff p.1) diff) := by
    intro rest
    induction rest with
    | nil => exact fun diff _ hdiff => hdiff
    | cons p rest ih =>
        intro diff hmem hdiff
        rw [List.forall_mem_cons] at hmem
        exact ih _ hmem.2 (hadd p hmem.1 diff hdiff)
  exact key pieces .empty (fun _ hp => hp) hempty

theorem diffOf_proper {pieces : List (String × Piece)}
    (h : ∀ p ∈ pieces, Dotless p.1 ∧ p.2.Sound w) : (diffOf pieces).Proper Dotless :=
  diffOf_induction Diff.proper_empty fun p hp _ hdiff =>
    (find_sound (fun q hq => (h q hq).2) p.1).addTo hdiff (h p hp).1

/-- Pieces whose nested diffs are orderly make an orderly diff. -/
theorem diffOf_orderly {pieces : List (String × Piece)}
    (h : ∀ p ∈ pieces, ∀ inner, p.2.nested? = some inner → inner.Orderly) :
    (diffOf pieces).Orderly := by
  refine diffOf_induction Diff.proper_empty fun p _ diff hdiff => ?_
  obtain ⟨inner, hinner, hadd⟩ | ⟨-, old, hadd⟩ := addTo_cases diff p.1 (find pieces p.1)
  · rw [hadd]
    exact hdiff.addEmbedded trivial (find_nested h hinner)
  · rw [hadd]
    exact hdiff.add trivial

/-- Every name brings the same piece each time, so that it holds what its piece adds. -/
theorem diffOf_follows {pieces : List (String × Piece)}
    (h : ∀ p ∈ pieces, ∀ inner, p.2.nested? = some inner → inner.Orderly) :
    (diffOf pieces).Follows fun name => (find pieces name).nested? := by
  have hfollows : (diffOf pieces).Orderly ∧
      (diffOf pieces).Follows fun name => (find pieces name).nested? := by
    apply diffOf_induction (P := fun diff => diff.Orderly ∧
      diff.Follows fun name => (find pieces name).nested?)
    · refine ⟨Diff.proper_empty, ?_, ?_⟩
      · simp [Diff.plainNames, Diff.empty, Diff.changes]
      · simp [Diff.empty, Diff.nested?]
    · rintro p - diff ⟨hdiff, hfollows⟩
      obtain ⟨inner, hinner, hadd⟩ | ⟨hplain, old, hadd⟩ := addTo_cases diff p.1 (find pieces p.1)
      · rw [hadd]
        have horderly := find_nested h hinner
        exact ⟨hdiff.addEmbedded trivial horderly, hfollows.addEmbedded hdiff horderly hinner⟩
      · rw [hadd]
        exact ⟨hdiff.add trivial, hfollows.add hplain⟩
  exact hfollows.2

/-- Plain changes stand in the order of the pieces. -/
theorem plainNames_diffOf (pieces : List (String × Piece)) :
    (diffOf pieces).plainNames.Sublist (pieces.map Prod.fst) := by
  have key : ∀ (rest : List (String × Piece)) (diff : Diff),
      (rest.foldl (fun diff p => (find pieces p.1).addTo diff p.1) diff).plainNames.Sublist
        (diff.plainNames ++ rest.map Prod.fst) := by
    intro rest
    induction rest with
    | nil => exact fun diff => (List.append_nil diff.plainNames).symm ▸ List.Sublist.refl _
    | cons p rest ih =>
        intro diff
        rw [List.map_cons, List.append_cons]
        apply (ih _).trans
        apply List.Sublist.append_right
        exact plainNames_addTo diff p.1 (find pieces p.1)
  exact key pieces .empty

theorem mem_topNames_diffOf (pieces : List (String × Piece)) (name : String) :
    name ∈ (diffOf pieces).topNames ↔ name ∈ pieces.map Prod.fst := by
  have key : ∀ (rest : List (String × Piece)) (diff : Diff),
      name ∈ (rest.foldl (fun diff p => (find pieces p.1).addTo diff p.1) diff).topNames ↔
        name ∈ rest.map Prod.fst ∨ name ∈ diff.topNames := by
    intro rest
    induction rest with
    | nil => simp
    | cons p rest ih =>
        intro diff
        rw [List.foldl_cons, ih, mem_topNames_addTo, List.map_cons, List.mem_cons]
        tauto
  rw [diffOf, key pieces .empty]
  simp [Diff.empty, Diff.topNames, Diff.changes, Diff.embedded]

theorem plainOld?_diffOf {pieces : List (String × Piece)} {name : String} {old : Value}
    (hmem : name ∈ pieces.map Prod.fst) (hfind : find pieces name = .value old)
    (hplain : ¬ old.IsEmbedded) : plainOld? (diffOf pieces).changes name = some old.detach := by
  have key : ∀ (rest : List (String × Piece)) (diff : Diff),
      plainOld? (rest.foldl (fun diff p => (find pieces p.1).addTo diff p.1) diff).changes name =
        if name ∈ rest.map Prod.fst then some old.detach else plainOld? diff.changes name := by
    intro rest
    induction rest with
    | nil => simp
    | cons p rest ih =>
        intro diff
        rw [List.foldl_cons, ih]
        by_cases hp : p.1 = name
        · subst hp
          have hadd : plainOld? ((find pieces p.1).addTo diff p.1).changes p.1 =
              some old.detach := by
            rw [hfind]
            cases old with
            | embedded type values => exact absurd trivial hplain
            | _ =>
                simp only [addTo, Value.addTo, Diff.add, Diff.changes_mapChanges,
                  Diff.plainOld?_record, if_pos]
          simp [hadd]
        · rw [plainOld?_addTo_of_ne _ hp]
          simp only [List.map_cons, List.mem_cons, Ne.symm hp, false_or]
  rw [diffOf, key pieces .empty, if_pos hmem]

end Piece

namespace Recording

theorem map_fst_pieces (r : Recording) : r.pieces.map Prod.fst = r.names := by
  induction r with
  | nil => rfl
  | bare name rest ih => simp [pieces, names, ih]
  | value name old rest ih => simp [pieces, names, ih]
  | aggregate name hasChanges nested rest _ ih => simp [pieces, names, ih]

theorem Sound.pieces {r : Recording} (h : r.Sound w) :
    ∀ p ∈ r.pieces, Dotless p.1 ∧ p.2.Sound w := by
  induction r with
  | nil => simp [Recording.pieces]
  | bare name rest ih =>
      intro p hp
      rcases List.mem_cons.mp hp with rfl | hp
      · exact ⟨h.1, trivial⟩
      · exact ih h.2 p hp
  | value name old rest ih =>
      intro p hp
      rcases List.mem_cons.mp hp with rfl | hp
      · exact ⟨h.1, h.2.1⟩
      · exact ih h.2.2 p hp
  | aggregate name hasChanges nested rest ihn ihr =>
      intro p hp
      rcases List.mem_cons.mp hp with rfl | hp
      · exact ⟨h.1, Piece.diffOf_proper (ihn h.2.1)⟩
      · exact ihr h.2.2 p hp

theorem Sound.diff_proper {r : Recording} (h : r.Sound w) : r.diff.Proper Dotless :=
  Piece.diffOf_proper h.pieces

theorem pieces_orderly (r : Recording) :
    ∀ p ∈ r.pieces, ∀ inner, p.2.nested? = some inner → inner.Orderly := by
  induction r with
  | nil => simp [Recording.pieces]
  | bare name rest ih =>
      refine List.forall_mem_cons.mpr ⟨fun inner hinner => ?_, ih⟩
      cases hinner
  | value name old rest ih =>
      refine List.forall_mem_cons.mpr ⟨fun inner hinner => ?_, ih⟩
      cases old with
      | embedded type values =>
          cases hinner
          exact Value.snapshot_orderly _
      | _ => cases hinner
  | aggregate name hasChanges nested rest ihn ihr =>
      refine List.forall_mem_cons.mpr ⟨fun inner hinner => ?_, ihr⟩
      cases hinner
      exact Piece.diffOf_orderly ihn

/-- The diff of any source is orderly. -/
theorem diff_orderly (r : Recording) : r.diff.Orderly := Piece.diffOf_orderly r.pieces_orderly

theorem diff_follows (r : Recording) : r.diff.Follows fun name => (Piece.find r.pieces name).nested? :=
  Piece.diffOf_follows r.pieces_orderly

/-- The diff of a source mentions the attributes that the source names. -/
theorem mem_topNames_diff (r : Recording) (name : String) :
    name ∈ r.diff.topNames ↔ name ∈ r.names := by
  rw [diff, Piece.mem_topNames_diffOf, map_fst_pieces]

end Recording

namespace ChangeSet

/-- What an entry brings to a diff. -/
def Entry.piece : Entry → Piece
  | .direct old => .value old
  | .aggregate _ nested => .nested nested.recording.diff nested.recording.warnings

theorem lookup_pieces (set : ChangeSet) (attr : String) :
    set.recording.pieces.lookup attr = (set.get? attr).map Entry.piece := by
  induction set with
  | nil => rfl
  | direct name old rest ih =>
      rw [recording, Recording.pieces, List.lookup_cons, get?, ih]
      by_cases hname : name = attr
      · simp [hname, Entry.piece]
      · have hne : (attr == name) = false := beq_eq_false_iff_ne.mpr (Ne.symm hname)
        rw [hne, if_neg hname]
  | aggregate name before nested rest _ ih =>
      rw [recording, Recording.pieces, List.lookup_cons, get?, ih]
      by_cases hname : name = attr
      · simp [hname, Entry.piece, Recording.diff, Recording.warnings]
      · have hne : (attr == name) = false := beq_eq_false_iff_ne.mpr (Ne.symm hname)
        rw [hne, if_neg hname]

theorem find_pieces {set : ChangeSet} {attr : String} {entry : Entry}
    (h : set.get? attr = some entry) : Piece.find set.recording.pieces attr = entry.piece := by
  rw [Piece.find, lookup_pieces, h]
  rfl

/-- The diff of a change set mentions the attributes that have entries. -/
theorem mem_topNames_recording (set : ChangeSet) (name : String) :
    name ∈ set.recording.diff.topNames ↔ name ∈ set.names := by
  rw [Recording.mem_topNames_diff, names_recording]

/-- The diff of a change set holds the first old value of an attribute that has a plain one. -/
theorem plainOld?_recording {set : ChangeSet} {attr : String} {old : Value}
    (h : set.get? attr = some (.direct old)) (hplain : ¬ old.IsEmbedded) :
    plainOld? set.recording.diff.changes attr = some old.detach := by
  apply Piece.plainOld?_diffOf _ (find_pieces h) hplain
  rw [Recording.map_fst_pieces, names_recording, ← get?_isSome_iff, h]
  rfl

/-- The diff of a change set nests under a name what the entry of the name brings. -/
theorem nested?_recording {set : ChangeSet} {attr : String} {entry : Entry}
    (h : set.get? attr = some entry) :
    set.recording.diff.nested? attr = entry.piece.nested? := by
  have hname : attr ∈ set.recording.diff.topNames := by
    rw [mem_topNames_recording, ← get?_isSome_iff, h]
    rfl
  rw [set.recording.diff_follows.nested?_eq hname, find_pieces h]

end ChangeSet

end Chronicle
