import Chronicle.Enhance.Description
import Chronicle.Proofs.Enhance.Marks

/-!
# Descriptions and classes

A struct is read twice: as a class whose setters are enhanced, and as a description from which code is
generated. Both readings take the same fields for properties, and a mark of an enhanced class changes one
option of either.

## Implementation notes

A description grows field by field and keeps no field that is not a property, whereas a class keeps all
its fields. So the two are compared along the fields, beginning with any description.
-/

namespace Chronicle

namespace Enhance

open Source

/-- Whether a field is a property: it does not hold the entry and is not transient. -/
def ClassField.isProperty (field : ClassField) : Bool :=
  !field.options.entry && !field.options.transient

/-- The names of the properties of a class, in the order of its fields. -/
def EntityClass.propertyNames (c : EntityClass) : List String :=
  (c.fields.filter ClassField.isProperty).map ClassField.name

/-! ## Fields -/

theorem readFields_unnamed {field : FieldDecl} (h : field.name = none) (fields : List FieldDecl) :
    EntityClass.readFields (field :: fields) = EntityClass.readFields fields := by
  simp only [EntityClass.readFields, List.filterMap_cons, h, Option.map_none]

theorem readFields_named {field : FieldDecl} {name : String} {options : FieldOptions}
    {fields : List FieldDecl} {read : List ClassField} (hname : field.name = some name)
    (hoptions : FieldOptions.ofAttributes field.attributes = .ok options)
    (hread : EntityClass.readFields fields = .ok read) :
    EntityClass.readFields (field :: fields) = .ok (⟨name, field.type, options⟩ :: read) := by
  rw [EntityClass.readFields, mapM_eq_ok] at hread ⊢
  rw [List.filterMap_cons, hname]
  refine .cons ?_ hread
  exact bind_eq_ok.mpr ⟨options, hoptions, rfl⟩

namespace Description

/-- One more field adds its name to the properties if it is one. -/
theorem Partial.add_names {known next : Partial} {name : String} {type : TypeExpr}
    {options : FieldOptions} (h : known.add name type options = .ok next) :
    next.properties.map DescribedProperty.name = known.properties.map DescribedProperty.name ++
      if ClassField.isProperty ⟨name, type, options⟩ then [name] else [] := by
  unfold Partial.add at h
  unfold ClassField.isProperty
  by_cases hentry : options.entry = true
  · rw [if_pos hentry] at h
    split at h
    · cases h
    · cases h
      simp [hentry]
  · rw [if_neg hentry] at h
    by_cases htransient : options.transient = true
    · rw [if_pos htransient] at h
      cases h
      simp [htransient]
    · rw [if_neg htransient] at h
      cases h
      simp [hentry, htransient]

/-- Fields that add to a description can be read for a class, and the properties among them are those
that are added. -/
theorem foldlM_addField_names {fields : List FieldDecl} {known result : Partial}
    (h : fields.foldlM Partial.addField known = .ok result) :
    ∃ read, EntityClass.readFields fields = .ok read ∧
      result.properties.map DescribedProperty.name = known.properties.map DescribedProperty.name ++
        (read.filter ClassField.isProperty).map ClassField.name := by
  induction fields generalizing known with
  | nil =>
      cases h
      exact ⟨[], rfl, by simp⟩
  | cons field fields ih =>
      rw [List.foldlM_cons] at h
      obtain ⟨next, hfield, hfields⟩ := bind_eq_ok.mp h
      obtain ⟨read, hread, hnames⟩ := ih hfields
      unfold Partial.addField at hfield
      cases hname : field.name with
      | none =>
          rw [hname] at hfield
          cases hfield
          exact ⟨read, by rw [readFields_unnamed hname, hread], hnames⟩
      | some name =>
          rw [hname] at hfield
          obtain ⟨options, hoptions, hadd⟩ := bind_eq_ok.mp hfield
          refine ⟨_, readFields_named hname (mapError_eq_ok.mp hoptions) hread, ?_⟩
          rw [hnames, Partial.add_names hadd, List.append_assoc, List.filter_cons]
          split <;> simp_all

/-! ## Structs -/

/-- What a struct with a description says: its options, its fields, one of them for the entry, and a key
unless it is embeddable. -/
theorem ofFields_eq_ok {declared : Struct} {fields : List FieldDecl} {d : Description} :
    ofFields declared fields = .ok d ↔
      ∃ options known entryField, StructOptions.ofAttributes declared.attributes = .ok options ∧
        fields.foldlM Partial.addField {} = .ok known ∧ known.entryField = some entryField ∧
        (known.keyField = none → options.embeddable = true) ∧
        d = { name := declared.name, generics := declared.generics,
              whereClause := declared.whereClause, options, entryField,
              keyField := known.keyField, properties := known.properties } := by
  constructor
  · intro h
    obtain ⟨options, hoptions, h⟩ := bind_eq_ok.mp h
    obtain ⟨known, hknown, h⟩ := bind_eq_ok.mp h
    split at h
    · cases h
    · rename_i entryField hentry
      split at h
      · cases h
      · rename_i hkey
        cases h
        refine ⟨options, known, entryField, mapError_eq_ok.mp hoptions, hknown, hentry, ?_, rfl⟩
        intro hnone
        simpa [hnone] using hkey
  · rintro ⟨options, known, entryField, hoptions, hknown, hentry, hkey, rfl⟩
    apply bind_eq_ok.mpr
    refine ⟨options, mapError_eq_ok.mpr hoptions, ?_⟩
    apply bind_eq_ok.mpr
    refine ⟨known, hknown, ?_⟩
    have hkeyed : (known.keyField.isNone && !options.embeddable) = false := by
      cases hfield : known.keyField with
      | none => simp [hkey hfield]
      | some name => rfl
    simp only [hentry, hkeyed]
    rfl

/-- The description of a struct and its class have the same options and properties. -/
theorem ofStruct_agrees {declared : Struct} {d : Description} (h : ofStruct declared = .ok d)
    (path : String) :
    StructOptions.ofAttributes declared.attributes = .ok d.options ∧
      ∃ c, EntityClass.ofStruct declared path = .ok c ∧
        d.properties.map DescribedProperty.name = c.propertyNames := by
  unfold ofStruct at h
  split at h
  · rename_i fields hfields
    obtain ⟨options, known, entryField, hoptions, hknown, -, -, rfl⟩ := ofFields_eq_ok.mp h
    obtain ⟨read, hread, hnames⟩ := foldlM_addField_names hknown
    refine ⟨hoptions, ⟨declared.name, inModule path declared.name, options, read⟩, ?_, ?_⟩
    · rw [EntityClass.ofStruct, hoptions, hfields, Fields.list, hread]
      rfl
    · rw [hnames]
      rfl
  · cases h

/-- A mark changes one option of a description. -/
theorem ofStruct_marked {declared : Struct} {d : Description} (h : ofStruct declared = .ok d)
    (times : Nat) :
    ofStruct (declared.marked times) = .ok { d with options := d.options.afterMarks times } := by
  have hfields : (declared.marked times).fields = declared.fields := rfl
  unfold ofStruct at h ⊢
  rw [hfields]
  split at h
  · obtain ⟨options, known, entryField, hoptions, hknown, hentry, hkey, rfl⟩ := ofFields_eq_ok.mp h
    apply ofFields_eq_ok.mpr
    refine ⟨options.afterMarks times, known, entryField, ?_, hknown, hentry, hkey, rfl⟩
    rw [structOptions_ofAttributes_marked, hoptions]
    rfl
  · cases h

end Description

end Enhance

end Chronicle
