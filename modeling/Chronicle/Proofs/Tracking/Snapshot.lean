import Chronicle.Proofs.Diff.Queries
import Chronicle.Proofs.Sample.World
import Chronicle.Proofs.Tracking.Extract

/-!
# Deletion snapshots

The snapshot of an object holds all that can be written back: at every path that leads over writable
properties and through embedded objects to a value that is not embedded, that value without the objects
it refers to. It has no other attributes, and at no level a name that is not that of a writable
property.

## Implementation notes

A route is a list of fields, each with the type that declares it, so that what is said of a path can be
said of every field on it. Distinct names make the snapshot a diff of pieces, whose laws tell each level;
names without dots make a path lead along one route only.
-/

namespace Chronicle

open Diff (plainOld?)

/-! ## Routes -/

/-- Whether a field is a property that can be written. -/
def Field.Writable (field : Field) : Prop := field.isProperty = true ∧ field.readOnly = false

instance (field : Field) : Decidable field.Writable := inferInstanceAs (Decidable (_ ∧ _))

/-- Whether the fields of a type have distinct names without dots, and its key is not writable. -/
structure EntityType.Declared (type : EntityType) : Prop where
  wellNamed : type.WellNamed
  key : ∀ field ∈ type.fields, type.keyField = some field.name → ¬ field.Writable

instance (type : EntityType) : Decidable type.Declared :=
  decidable_of_iff (type.WellNamed ∧
      ∀ field ∈ type.fields, type.keyField = some field.name → ¬ field.Writable)
    ⟨fun h => ⟨h.1, h.2⟩, fun h => ⟨h.1, h.2⟩⟩

/-- A field with the type that declares it. -/
structure Crossing where
  type : EntityType
  field : Field

/-- Whether the field is the key of the type. -/
def Crossing.IsKey (c : Crossing) : Prop := c.type.keyField = some c.field.name

/-- The path of a route: the names of its fields, joined by dots. -/
def dotted (route : List Crossing) : String := ".".intercalate (route.map (·.field.name))

namespace Value

/-- Whether the types of all embedded objects in a value are as declarations make them. -/
inductive Regular : Value → Prop where
  | flat {value : Value} : ¬ value.IsEmbedded → Regular value
  | embedded {type : EntityType} {values : List Value} :
      type.Declared → (∀ value ∈ values, Regular value) → Regular (.embedded type values)

/-- Whether a route of fields leads from an object, through embedded objects, to a value. -/
inductive Leads : Value → List Crossing → Value → Prop where
  | field {type : EntityType} {values : List Value} {field : Field} {value : Value} :
      (field, value) ∈ type.fields.zip values → Leads (.embedded type values) [⟨type, field⟩] value
  | within {type : EntityType} {values : List Value} {field : Field} {inner value : Value}
      {route : List Crossing} : (field, inner) ∈ type.fields.zip values → Leads inner route value →
      Leads (.embedded type values) (⟨type, field⟩ :: route) value

/-- Whether an old value is a value without the objects that it refers to: of a reference the token, of
a collection the tokens of the items that have one, and of those in a set the first occurrences. -/
inductive DetachesTo : Value → OldValue → Prop where
  | null : DetachesTo .null .null
  | scalar (scalar : Scalar) : DetachesTo (.scalar scalar) (.scalar scalar)
  | reference {target : Ref} {token : Token} : target.token? = some token →
      DetachesTo (.reference target) (.reference token)
  | keyless {target : Ref} : target.token? = none → DetachesTo (.reference target) .null
  | list (items : List Ref) :
      DetachesTo (.collection .list items) (.collection .list (items.filterMap Ref.token?))
  | set (items : List Ref) :
      DetachesTo (.collection .set items) (.collection .set (items.filterMap Ref.token?).eraseDups)

end Value

/-- Whether the types of an object and of all objects embedded in it are as declarations make them. -/
def Object.Regular (o : Object) : Prop := o.toValue.Regular

/-! ## Regular values -/

section Regular

variable {type : EntityType} {values : List Value} {field : Field} {value : Value}

namespace Value

theorem Regular.declared (h : (Value.embedded type values).Regular) : type.Declared := by
  cases h with
  | flat hplain => exact absurd trivial hplain
  | embedded hdeclared _ => exact hdeclared

theorem Regular.parts (h : (Value.embedded type values).Regular) : ∀ value ∈ values, value.Regular := by
  cases h with
  | flat hplain => exact absurd trivial hplain
  | embedded _ hvalues => exact hvalues

theorem Regular.of_mem_zip {fields : List Field} (h : (Value.embedded type values).Regular)
    (hfield : (field, value) ∈ fields.zip values) : value.Regular :=
  h.parts value (List.of_mem_zip hfield).2

theorem Regular.replaceAt {fields : List Field} {name : String} {new : Value}
    (h : ∀ value ∈ values, value.Regular) (hnew : new.Regular) :
    ∀ value ∈ Object.replaceAt name new fields values, value.Regular := by
  induction fields generalizing values with
  | nil => exact h
  | cons field fields ih =>
      cases values with
      | nil => exact h
      | cons first values =>
          rw [List.forall_mem_cons] at h
          unfold Object.replaceAt
          split_ifs
          · exact List.forall_mem_cons.mpr ⟨hnew, h.2⟩
          · exact List.forall_mem_cons.mpr ⟨h.1, ih h.2⟩

end Value

/-- An object with nothing assigned has no embedded objects. -/
theorem Object.fresh_regular {type : EntityType} (h : type.Declared) : (Object.fresh type).Regular := by
  refine .embedded h fun value hvalue => .flat ?_
  obtain ⟨field, -, rfl⟩ := List.mem_map.mp hvalue
  cases field.type <;> exact id

/-- An object stays as declarations make it if a value that is so is assigned. -/
theorem Object.Regular.assign {o : Object} (h : o.Regular) {name : String} {value : Value}
    (hvalue : value.Regular) : (o.assign name value).Regular := by
  refine .embedded (Value.Regular.declared h) (Value.Regular.replaceAt ?_ hvalue)
  exact Value.Regular.parts h

end Regular

/-! ## Detaching -/

theorem itemTokens_list (items : List Ref) :
    itemTokens .list items = items.filterMap Ref.token? := by
  have key : ∀ tokens known : List Token,
      tokens.foldl (fun tokens token =>
        if CollectionKind.list = .set && tokens.contains token then tokens else tokens ++ [token])
        known = known ++ tokens := by
    intro tokens
    induction tokens with
    | nil => simp
    | cons token rest ih =>
        intro known
        simpa using ih (known ++ [token])
  exact key (items.filterMap Ref.token?) []

theorem itemTokens_set (items : List Ref) :
    itemTokens .set items = (items.filterMap Ref.token?).eraseDups := by
  have hfold : itemTokens .set items = (items.filterMap Ref.token?).foldl
      (fun known token => if known.any (token == ·) then known else known ++ [token]) [] := by
    unfold itemTokens
    congr 1
    funext known token
    rw [← List.contains_eq_any_beq]
    rfl
  exact hfold.trans (foldl_unless_like_nil (· == ·) _)

/-- What is kept of a value that is not embedded is that value without the objects. -/
theorem Value.detachesTo_detach {value : Value} (h : ¬ value.IsEmbedded) :
    value.DetachesTo value.detach := by
  cases value with
  | null => exact .null
  | scalar scalar => exact .scalar scalar
  | reference target =>
      cases htoken : target.token? with
      | none =>
          simp only [detach, htoken]
          exact .keyless htoken
      | some token =>
          simp only [detach, htoken]
          exact .reference htoken
  | collection kind items =>
      cases kind with
      | list =>
          rw [detach, itemTokens_list]
          exact .list items
      | set =>
          rw [detach, itemTokens_set]
          exact .set items
  | embedded type values => exact absurd trivial h

/-! ## One level -/

namespace Value

/-- What is kept of a value as a plain change, unless it is embedded. -/
def kept? : Value → Option OldValue
  | .embedded .. => none
  | value => some value.detach

theorem kept?_of_embedded {value : Value} (h : value.IsEmbedded) : value.kept? = none := by
  obtain ⟨type, values, rfl⟩ := h.exists_eq
  rfl

theorem kept?_of_not_embedded {value : Value} (h : ¬ value.IsEmbedded) :
    value.kept? = some value.detach := by
  cases value with
  | embedded type values => exact absurd trivial h
  | _ => rfl

/-- The writable properties among some fields, each with its value. -/
def writablePieces (fields : List Field) (values : List Value) : List (String × Piece) :=
  ((fields.zip values).filter fun p => p.1.isProperty && !p.1.readOnly).map fun p =>
    (p.1.name, .value p.2)

theorem mem_writablePieces {fields : List Field} {values : List Value} {name : String}
    {piece : Piece} :
    (name, piece) ∈ writablePieces fields values ↔
      ∃ field value, (field, value) ∈ fields.zip values ∧ field.Writable ∧ field.name = name ∧
        piece = .value value := by
  simp only [writablePieces, List.mem_map, List.mem_filter, Bool.and_eq_true, Bool.not_eq_true',
    Prod.mk.injEq, Prod.exists, Field.Writable]
  constructor
  · rintro ⟨field, value, ⟨hmem, hwritable⟩, hname, hpiece⟩
    exact ⟨field, value, hmem, hwritable, hname, hpiece.symm⟩
  · rintro ⟨field, value, hmem, hwritable, hname, hpiece⟩
    exact ⟨field, value, ⟨hmem, hwritable⟩, hname, hpiece.symm⟩

theorem snapshotFields_eq_foldl (fields : List Field) (values : List Value) (known : Diff) :
    snapshotFields fields values known =
      (writablePieces fields values).foldl (fun diff p => p.2.addTo diff p.1) known := by
  induction fields generalizing values known with
  | nil => simp [writablePieces]
  | cons field fields ih =>
      cases values with
      | nil => simp [writablePieces]
      | cons value values =>
          rw [snapshotFields_cons, ih]
          by_cases hwritable : (field.isProperty && !field.readOnly) = true
          · simp [writablePieces, hwritable, Piece.addTo]
          · simp [writablePieces, hwritable]

theorem fst_zip_sublist (fields : List Field) (values : List Value) :
    ((fields.zip values).map Prod.fst).Sublist fields := by
  induction fields generalizing values with
  | nil => simp
  | cons field fields ih =>
      cases values with
      | nil => simp
      | cons value values => exact (ih values).cons_cons field

theorem nodup_writablePieces {fields : List Field} (h : (fields.map Field.name).Nodup)
    (values : List Value) : ((writablePieces fields values).map Prod.fst).Nodup := by
  have hsub : ((writablePieces fields values).map Prod.fst).Sublist
      (((fields.zip values).map Prod.fst).map Field.name) := by
    rw [writablePieces, List.map_map, List.map_map]
    exact List.filter_sublist.map _
  exact hsub.nodup (((fst_zip_sublist fields values).map Field.name).nodup h)

end Value

theorem Piece.find_of_mem {pieces : List (String × Piece)} (h : (pieces.map Prod.fst).Nodup)
    {name : String} {piece : Piece} (hmem : (name, piece) ∈ pieces) : find pieces name = piece := by
  induction pieces with
  | nil => cases hmem
  | cons first rest ih =>
      obtain ⟨hfirst, hrest⟩ := List.nodup_cons.mp h
      rcases List.mem_cons.mp hmem with rfl | hmem
      · simp [find]
      · have hne : (name == first.1) = false :=
          beq_eq_false_iff_ne.mpr fun heq => hfirst (heq ▸ List.mem_map_of_mem hmem)
        rw [← ih hrest hmem, find, find, List.lookup_cons, hne]

namespace Value

/-- Under distinct names every piece is the first one of its name. -/
theorem snapshot_eq_diffOf {type : EntityType} (h : type.WellNamed) (values : List Value) :
    (embedded type values).snapshot = Piece.diffOf (writablePieces type.fields values) := by
  rw [snapshot, snapshotFields_eq_foldl, Piece.diffOf]
  apply List.foldl_ext
  rintro diff ⟨name, piece⟩ hp
  change piece.addTo diff name = (Piece.find _ name).addTo diff name
  rw [Piece.find_of_mem (nodup_writablePieces h.1 values) hp]

variable {type : EntityType} {values : List Value} {field : Field} {value : Value}

theorem mem_topNames_snapshot (h : type.WellNamed) (values : List Value) (name : String) :
    name ∈ (embedded type values).snapshot.topNames ↔
      ∃ field value, (field, value) ∈ type.fields.zip values ∧ field.Writable ∧
        field.name = name := by
  rw [snapshot_eq_diffOf h, Piece.mem_topNames_diffOf, List.mem_map]
  constructor
  · rintro ⟨⟨name, piece⟩, hmem, rfl⟩
    obtain ⟨field, value, hfield, hwritable, hname, -⟩ := mem_writablePieces.mp hmem
    exact ⟨field, value, hfield, hwritable, hname⟩
  · rintro ⟨field, value, hfield, hwritable, hname⟩
    exact ⟨(name, .value value), mem_writablePieces.mpr ⟨field, value, hfield, hwritable, hname, rfl⟩,
      rfl⟩

/-- A field is named in the snapshot if it is a property that can be written. -/
theorem field_mem_topNames_snapshot (h : type.WellNamed)
    (hfield : (field, value) ∈ type.fields.zip values) :
    field.name ∈ (embedded type values).snapshot.topNames ↔ field.Writable := by
  rw [mem_topNames_snapshot h]
  constructor
  · rintro ⟨other, found, hother, hwritable, hname⟩
    have hsame : other = field :=
      List.inj_on_of_nodup_map h.1 (List.of_mem_zip hother).1 (List.of_mem_zip hfield).1 hname
    exact hsame ▸ hwritable
  · exact fun hwritable => ⟨field, value, hfield, hwritable, rfl⟩

/-- A writable property brings its value as a piece. -/
theorem find_writablePieces (h : type.WellNamed) (hfield : (field, value) ∈ type.fields.zip values)
    (hwritable : field.Writable) :
    Piece.find (writablePieces type.fields values) field.name = .value value :=
  Piece.find_of_mem (nodup_writablePieces h.1 values)
    (mem_writablePieces.mpr ⟨field, value, hfield, hwritable, rfl, rfl⟩)

/-- What the snapshot says of a name is what the piece of the name says. -/
theorem snapshot_follows (h : type.WellNamed) (values : List Value) :
    (embedded type values).snapshot.Follows fun name =>
      (Piece.find (writablePieces type.fields values) name).nested? := by
  rw [snapshot_eq_diffOf h]
  apply Piece.diffOf_follows
  rintro ⟨name, piece⟩ hp inner hinner
  obtain ⟨field, value, -, -, -, rfl⟩ := mem_writablePieces.mp hp
  cases value with
  | embedded innerType parts =>
      cases hinner
      exact snapshot_orderly _
  | _ => cases hinner

/-- What a snapshot keeps under the name of a writable property: a plain change unless the value is
embedded. -/
theorem plainOld?_snapshot (h : type.WellNamed) (hfield : (field, value) ∈ type.fields.zip values)
    (hwritable : field.Writable) :
    plainOld? (embedded type values).snapshot.changes field.name = value.kept? := by
  have hfind := find_writablePieces h hfield hwritable
  by_cases hplain : value.IsEmbedded
  · have hnested : (Piece.value value).nested? ≠ none := by
      obtain ⟨innerType, parts, rfl⟩ := hplain.exists_eq
      exact Option.some_ne_none _
    rw [kept?_of_embedded hplain, ← Option.not_isSome_iff_eq_none, Diff.plainOld?_isSome_iff]
    intro hmem
    have hnone := (snapshot_follows h values).plain field.name hmem
    rw [hfind] at hnone
    exact hnested hnone
  · have hmem : (field.name, Piece.value value) ∈ writablePieces type.fields values :=
      mem_writablePieces.mpr ⟨field, value, hfield, hwritable, rfl, rfl⟩
    rw [snapshot_eq_diffOf h, kept?_of_not_embedded hplain]
    exact Piece.plainOld?_diffOf (List.mem_map_of_mem hmem) hfind hplain

/-- A writable property has a nested diff if it is embedded: the snapshot of its value. -/
theorem nested?_snapshot (h : type.WellNamed) (hfield : (field, value) ∈ type.fields.zip values)
    (hwritable : field.Writable) :
    (embedded type values).snapshot.nested? field.name = (Piece.value value).nested? := by
  rw [(snapshot_follows h values).nested?_eq ((field_mem_topNames_snapshot h hfield).mpr hwritable),
    find_writablePieces h hfield hwritable]

theorem nested?_snapshot_of_not_writable (h : type.WellNamed)
    (hfield : (field, value) ∈ type.fields.zip values) (hwritable : ¬ field.Writable) :
    (embedded type values).snapshot.nested? field.name = none :=
  Diff.nested?_eq_none _ _ fun hmem =>
    hwritable ((field_mem_topNames_snapshot h hfield).mp (List.mem_append_right _ hmem))

/-- The nested diffs of a snapshot are the snapshots of the writable properties that are embedded. -/
theorem exists_of_nested?_snapshot (h : type.WellNamed) {name : String} {inner : Diff}
    (hinner : (embedded type values).snapshot.nested? name = some inner) :
    ∃ field value, (field, value) ∈ type.fields.zip values ∧ field.name = name ∧
      inner = value.snapshot := by
  have hname : name ∈ (embedded type values).snapshot.nestedNames :=
    (Diff.nested?_isSome_iff _ name).mp (by rw [hinner]; rfl)
  obtain ⟨field, value, hfield, hwritable, rfl⟩ :=
    (mem_topNames_snapshot h values name).mp (List.mem_append_right _ hname)
  rw [nested?_snapshot h hfield hwritable] at hinner
  cases value with
  | embedded innerType parts =>
      cases hinner
      exact ⟨field, _, hfield, rfl, rfl⟩
  | _ => cases hinner

theorem snapshot_of_not_embedded (h : ¬ value.IsEmbedded) : value.snapshot = .empty := by
  cases value with
  | embedded type values => exact absurd trivial h
  | _ => rfl

end Value

theorem Diff.isChanged_empty (path : String) : Diff.empty.isChanged path = false := by
  unfold isChanged
  cases splitPath path <;> rfl

/-! ## All levels -/

theorem dotted_cons {route : List Crossing} (h : route ≠ []) (c : Crossing) :
    dotted (c :: route) = c.field.name ++ "." ++ dotted route := by
  rw [dotted, List.map_cons, String.intercalate_cons_of_ne_nil (by simpa using h)]
  rfl

theorem dotted_singleton (c : Crossing) : dotted [c] = c.field.name := String.intercalate_singleton

namespace Value

variable {type : EntityType} {values : List Value} {field : Field} {value : Value}

/-- The snapshots of embedded objects are proper if the names of the fields at every level are. -/
theorem snapshotFields_proper_of_forall {fields : List Field} {values : List Value} {known : Diff}
    (hnames : ∀ name ∈ fields.map Field.name, Dotless name)
    (hvalues : ∀ value ∈ values, value.snapshot.Proper Dotless) (hknown : known.Proper Dotless) :
    (snapshotFields fields values known).Proper Dotless := by
  induction fields generalizing values known with
  | nil =>
      rw [snapshotFields_nil_left]
      exact hknown
  | cons field fields ih =>
      cases values with
      | nil =>
          rw [snapshotFields_nil_right]
          exact hknown
      | cons value values =>
          rw [List.map_cons, List.forall_mem_cons] at hnames
          rw [List.forall_mem_cons] at hvalues
          rw [snapshotFields_cons]
          apply ih hnames.2 hvalues.2
          split_ifs
          · exact addTo_proper hknown hnames.1 hvalues.1
          · exact hknown

theorem Regular.snapshot_proper {value : Value} (h : value.Regular) :
    value.snapshot.Proper Dotless := by
  induction h with
  | flat hplain =>
      rw [snapshot_of_not_embedded hplain]
      exact Diff.proper_empty
  | embedded hdeclared _ ih =>
      exact snapshotFields_proper_of_forall hdeclared.wellNamed.2 ih Diff.proper_empty

/-- A route leads from an embedded object. -/
theorem Leads.nested?_value {object value : Value} {route : List Crossing}
    (h : object.Leads route value) : (Piece.value object).nested? = some object.snapshot := by
  cases h <;> rfl

theorem Leads.ne_nil {object value : Value} {route : List Crossing}
    (h : object.Leads route value) : route ≠ [] := by
  cases h <;> exact List.cons_ne_nil _ _

/-- At the end of a route over writable properties a snapshot has the value detached, unless it is
embedded. -/
theorem Leads.oldValue? {object value : Value} {route : List Crossing}
    (h : object.Leads route value) (hregular : object.Regular)
    (hroute : ∀ c ∈ route, c.field.Writable) :
    object.snapshot.oldValue? (dotted route) = value.kept? := by
  induction h with
  | @field type values field value hfield =>
      have hwell := hregular.declared.wellNamed
      have hdot := hwell.2 field.name (List.mem_map_of_mem (List.of_mem_zip hfield).1)
      rw [dotted_singleton, Diff.oldValue?_of_dotless _ hdot]
      exact plainOld?_snapshot hwell hfield (hroute ⟨type, field⟩ List.mem_cons_self)
  | @within type values field inner value route hfield hrest ih =>
      have hwell := hregular.declared.wellNamed
      have hdot := hwell.2 field.name (List.mem_map_of_mem (List.of_mem_zip hfield).1)
      rw [List.forall_mem_cons] at hroute
      have hnested := nested?_snapshot hwell hfield hroute.1
      rw [hrest.nested?_value] at hnested
      rw [dotted_cons hrest.ne_nil,
        Diff.oldValue?_of_split hregular.snapshot_proper (Diff.splitPath_append hdot _), hnested]
      exact ih (hregular.of_mem_zip hfield) hroute.2

/-- A snapshot says that what is at the end of a route changed if the route leads over writable
properties only. -/
theorem Leads.isChanged_iff {object value : Value} {route : List Crossing}
    (h : object.Leads route value) (hregular : object.Regular) :
    object.snapshot.isChanged (dotted route) = true ↔ ∀ c ∈ route, c.field.Writable := by
  induction h with
  | @field type values field value hfield =>
      have hwell := hregular.declared.wellNamed
      have hdot := hwell.2 field.name (List.mem_map_of_mem (List.of_mem_zip hfield).1)
      rw [dotted_singleton, Diff.isChanged_of_dotless _ hdot, Diff.mentions_iff,
        field_mem_topNames_snapshot hwell hfield, List.forall_mem_singleton]
  | @within type values field inner value route hfield hrest ih =>
      have hwell := hregular.declared.wellNamed
      have hdot := hwell.2 field.name (List.mem_map_of_mem (List.of_mem_zip hfield).1)
      rw [dotted_cons hrest.ne_nil,
        Diff.isChanged_of_split hregular.snapshot_proper (Diff.splitPath_append hdot _),
        List.forall_mem_cons, ← ih (hregular.of_mem_zip hfield)]
      by_cases hwritable : field.Writable
      · have hnested := nested?_snapshot hwell hfield hwritable
        rw [hrest.nested?_value] at hnested
        rw [hnested, and_iff_right hwritable]
        rfl
      · rw [nested?_snapshot_of_not_writable hwell hfield hwritable]
        simp [hwritable]

/-- What a snapshot says to have changed is at the end of a route. -/
theorem Regular.exists_leads {object : Value} (h : object.Regular) {path : String}
    (hpath : object.snapshot.isChanged path = true) :
    ∃ route value, object.Leads route value ∧ dotted route = path := by
  induction h generalizing path with
  | flat hplain =>
      rw [snapshot_of_not_embedded hplain, Diff.isChanged_empty] at hpath
      cases hpath
  | @embedded type values hdeclared hvalues ih =>
      have hregular : (Value.embedded type values).Regular := .embedded hdeclared hvalues
      cases hsplit : Diff.splitPath path with
      | none =>
          rw [Diff.isChanged_of_dotless _ (Diff.splitPath_eq_none.mp hsplit), Diff.mentions_iff,
            mem_topNames_snapshot hdeclared.wellNamed] at hpath
          obtain ⟨field, value, hfield, -, rfl⟩ := hpath
          exact ⟨_, value, .field hfield, dotted_singleton _⟩
      | some ends =>
          obtain ⟨head, tail⟩ := ends
          rw [Diff.isChanged_of_split hregular.snapshot_proper hsplit, Option.any_eq_true] at hpath
          obtain ⟨nested, hnested, htail⟩ := hpath
          obtain ⟨field, inner, hfield, rfl, rfl⟩ :=
            exists_of_nested?_snapshot hdeclared.wellNamed hnested
          obtain ⟨route, value, hroute, rfl⟩ := ih inner (List.of_mem_zip hfield).2 htail
          refine ⟨⟨type, field⟩ :: route, value, .within hfield hroute, ?_⟩
          rw [dotted_cons hroute.ne_nil]
          exact (Diff.splitPath_eq_some hsplit).2.symm

/-- No field on a route that can be written is a key. -/
theorem Leads.not_isKey {object value : Value} {route : List Crossing}
    (h : object.Leads route value) (hregular : object.Regular) {c : Crossing} (hc : c ∈ route)
    (hwritable : c.field.Writable) : ¬ c.IsKey := by
  induction h with
  | field hfield =>
      obtain rfl := List.mem_singleton.mp hc
      exact fun hkey => hregular.declared.key _ (List.of_mem_zip hfield).1 hkey hwritable
  | within hfield _ ih =>
      rcases List.mem_cons.mp hc with rfl | hc
      · exact fun hkey => hregular.declared.key _ (List.of_mem_zip hfield).1 hkey hwritable
      · exact ih (hregular.of_mem_zip hfield) hc

end Value

/-- The snapshot of a deleted object is complete: it has, at the path of every route that leads over
writable properties and through embedded objects to a value that is not embedded, this value without the
objects that it refers to. Its attributes are these paths, once each. All that it mentions at any level
stands in a field of an object, and in none that is a key, read-only or no property. -/
theorem snapshot_complete {o : Object} (h : o.Regular) :
    (∀ route value, o.toValue.Leads route value → (∀ c ∈ route, c.field.Writable) →
      ¬ value.IsEmbedded →
      ∃ old, value.DetachesTo old ∧ o.snapshot.oldValue? (dotted route) = some old) ∧
    (∀ path, path ∈ o.snapshot.attributes ↔
      ∃ route value, o.toValue.Leads route value ∧ (∀ c ∈ route, c.field.Writable) ∧
        ¬ value.IsEmbedded ∧ dotted route = path) ∧
    o.snapshot.attributes.Nodup ∧
    (∀ path, o.snapshot.isChanged path = true →
      ∃ route value, o.toValue.Leads route value ∧ dotted route = path) ∧
    ∀ route value, o.toValue.Leads route value → o.snapshot.isChanged (dotted route) = true →
      ∀ c ∈ route, c.field.Writable ∧ ¬ c.IsKey := by
  have hproper : o.snapshot.Proper Dotless := Value.Regular.snapshot_proper h
  have hold : ∀ {route value}, o.toValue.Leads route value → (∀ c ∈ route, c.field.Writable) →
      o.snapshot.oldValue? (dotted route) = value.kept? := fun hroute => hroute.oldValue? h
  have hchanged : ∀ {route value}, o.toValue.Leads route value →
      (o.snapshot.isChanged (dotted route) = true ↔ ∀ c ∈ route, c.field.Writable) :=
    fun hroute => hroute.isChanged_iff h
  refine ⟨fun route value hroute hwritable hplain => ?_, fun path => ?_,
    Diff.nodup_attributes hproper, fun path => Value.Regular.exists_leads h,
    fun route value hroute hpath c hc => ?_⟩
  · exact ⟨value.detach, Value.detachesTo_detach hplain,
      (hold hroute hwritable).trans (Value.kept?_of_not_embedded hplain)⟩
  · rw [Diff.mem_attributes_iff hproper]
    constructor
    · intro hpath
      have hattribute := (Diff.mem_attributes_iff hproper path).mpr hpath
      obtain ⟨route, value, hroute, rfl⟩ := Value.Regular.exists_leads h
        ((Diff.isChanged_iff hproper path).mpr (Or.inl hattribute))
      have hwritable := (hchanged hroute).mp ((Diff.isChanged_iff hproper _).mpr (Or.inl hattribute))
      rw [hold hroute hwritable] at hpath
      refine ⟨route, value, hroute, hwritable, fun hembedded => ?_, rfl⟩
      rw [Value.kept?_of_embedded hembedded] at hpath
      cases hpath
    · rintro ⟨route, value, hroute, hwritable, hplain, rfl⟩
      rw [hold hroute hwritable, Value.kept?_of_not_embedded hplain]
      rfl
  · have hwritable := (hchanged hroute).mp hpath c hc
    exact ⟨hwritable, hroute.not_isKey h hc hwritable⟩

namespace Sample

/-- An owner with a key. -/
def lessor : Ref := ⟨7, owner, some (.int 7), "Owner"⟩

/-- An owner without a key. -/
def stranger : Ref := ⟨8, owner, none, "Owner"⟩

/-- An address with a landlord who is also twice among the tenants. -/
def tenancy : Value :=
  .embedded address
    [.scalar (.text "Paris"), .null, .embedded geo [.null, .null, .null], .reference lessor,
      .collection .list [lessor, stranger, lessor], .scalar (.text "75"), .scalar (.text "cached")]

/-- A person at this address. -/
def lodger : Object := (Object.fresh person).assign "address" tenancy

theorem tenancy_regular : tenancy.Regular := by
  have hgeo : (Value.embedded geo [.null, .null, .null]).Regular := by
    refine .embedded (by decide +kernel) fun value hvalue => .flat ?_
    simp only [List.mem_cons, List.not_mem_nil, or_false, or_self] at hvalue
    exact hvalue ▸ id
  refine .embedded (by decide +kernel) ?_
  simp only [List.forall_mem_cons, List.not_mem_nil, false_implies, implies_true, and_true]
  exact ⟨.flat id, .flat id, hgeo, .flat id, .flat id, .flat id, .flat id⟩

theorem lodger_regular : lodger.Regular :=
  (Object.fresh_regular (by decide +kernel)).assign tenancy_regular

/-- The route to a field of the address. -/
def atAddress (field : Field) : List Crossing :=
  [⟨person, plain "address" (maybe (.embedded "Address"))⟩, ⟨address, field⟩]

theorem leads_atAddress {field : Field} {value : Value}
    (h : Value.Leads tenancy [⟨address, field⟩] value) :
    lodger.toValue.Leads (atAddress field) value :=
  .within (List.mem_of_getElem? (i := 7) rfl) h

end Sample

open Sample in
/-- Of an address with a landlord, a list of tenants and a read-only code, the code is left out. -/
theorem lodger_snapshot_complete :
    lodger.Regular ∧
      lodger.snapshot.oldValue? "address.landlord" = some (.reference ⟨"Owner", .int 7⟩) ∧
      lodger.snapshot.oldValue? "address.tenants" =
        some (.collection .list [⟨"Owner", .int 7⟩, ⟨"Owner", .int 7⟩]) ∧
      "address.landlord" ∈ lodger.snapshot.attributes ∧
      lodger.snapshot.isChanged "address.code" = false := by
  obtain ⟨hold, hattributes, -, -, hmentioned⟩ := snapshot_complete lodger_regular
  have hlandlord : lodger.toValue.Leads (atAddress (plain "landlord" (maybe (.reference "Owner"))))
      (.reference lessor) := leads_atAddress (.field (List.mem_of_getElem? (i := 3) rfl))
  have htenants : lodger.toValue.Leads (atAddress (plain "tenants" (.list "Owner")))
      (.collection .list [lessor, stranger, lessor]) :=
    leads_atAddress (.field (List.mem_of_getElem? (i := 4) rfl))
  have hcode : lodger.toValue.Leads (atAddress (readOnly "code" (maybe .text)))
      (.scalar (.text "75")) := leads_atAddress (.field (List.mem_of_getElem? (i := 5) rfl))
  have hwritable : ∀ c ∈ atAddress (plain "landlord" (maybe (.reference "Owner"))), c.field.Writable := by
    decide
  have hwritable' : ∀ c ∈ atAddress (plain "tenants" (.list "Owner")), c.field.Writable := by
    decide
  obtain ⟨landlord, hdetach, hlandlordOld⟩ := hold _ _ hlandlord hwritable id
  obtain ⟨tenants, hdetach', htenantsOld⟩ := hold _ _ htenants hwritable' id
  refine ⟨lodger_regular, ?_, ?_, (hattributes _).mpr ⟨_, _, hlandlord, hwritable, id, by decide⟩, ?_⟩
  · cases hdetach with
    | reference htoken =>
        cases htoken
        exact hlandlordOld
    | keyless htoken => cases htoken
  · cases hdetach'
    exact htenantsOld
  · by_contra hchanged
    have hcodeWritable := hmentioned _ _ hcode (eq_true_of_ne_false hchanged)
    exact absurd (hcodeWritable ⟨address, readOnly "code" (maybe .text)⟩ (by simp [atAddress])).1
      (by decide)

end Chronicle
