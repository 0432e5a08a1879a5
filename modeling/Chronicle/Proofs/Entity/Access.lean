import Chronicle.Proofs.Entity.Conversion
import Chronicle.Sample.Types
import Chronicle.Tracking.Entity

/-!
# Access by name

Setting a property by name changes this property alone or nothing, and it is refused for exactly three
reasons: there is no such property, it is read-only, or the value does not convert to its type. What is
read can be written back, which changes nothing.

## Implementation notes

An object is well-typed if its fields have distinct names and each holds a value of its type; the results
are about such objects, since only they are built. The types of fields may have any number of optional
layers.
-/

namespace Chronicle

namespace EntityType

/-- Whether a type has a property of a name. -/
def HasProperty (type : EntityType) (name : String) : Prop :=
  ∃ property ∈ type.properties, property.name = name

/-- Whether the objects of a type take a value for a property and then hold another one. -/
def Takes (type : EntityType) (name : String) (value stored : Value) : Prop :=
  ∃ property ∈ type.writable, property.name = name ∧ property.type.Converts value stored

/-- Why the objects of a type refuse a value for a name. -/
inductive Refuses (type : EntityType) (name : String) (value : Value) : ModelError → Prop where
  | unknown : ¬ type.HasProperty name → Refuses type name value (.unknownProperty type.name name)
  | readOnly {property : Field} : property ∈ type.properties → property.name = name →
      property.readOnly = true → Refuses type name value (.readOnlyProperty type.name name)
  | mismatch {property : Field} : property ∈ type.writable → property.name = name →
      (¬ ∃ stored, property.type.Converts value stored) →
      Refuses type name value (.typeMismatch name property.expected value.kindName)

end EntityType

/-- Whether the fields of an object have distinct names and hold values of their types. -/
structure Object.WellTyped (o : Object) : Prop where
  distinct : (o.type.fields.map Field.name).Nodup
  holds : List.Forall₂ (fun field value => field.type.Holds value) o.type.fields o.values

/-- What an entity is after a property was set by name. -/
structure Entity.Assigned (e : Entity) (name : String) (value : Value) (written : Entity) : Prop where
  /-- The property holds what the value converts to. -/
  stored : ∃ stored, e.object.type.Takes name value stored ∧ written.object.get? name = some stored
  /-- An integer is read back as the same integer. -/
  integer : ∀ n, value.IsInteger n →
    ∃ stored, written.object.get? name = some stored ∧ stored.IsInteger n
  properties : ∀ other, other ≠ name → written.object.get? other = e.object.get? other
  fields : ∀ other, other ≠ name → written.object.field? other = e.object.field? other
  type : written.object.type = e.object.type
  wellTyped : written.object.WellTyped
  /-- State and listeners are those of before. -/
  entry : written = { e with object := written.object }

/-! ## Properties -/

namespace EntityType

theorem property?_eq_none_iff {type : EntityType} {name : String} :
    type.property? name = none ↔ ¬ type.HasProperty name := by
  simp [property?, HasProperty]

theorem property?_eq_some_iff {type : EntityType} (h : (type.fields.map Field.name).Nodup)
    {name : String} {property : Field} :
    type.property? name = some property ↔ property ∈ type.properties ∧ property.name = name := by
  constructor
  · exact fun hfound =>
      ⟨List.mem_of_find?_eq_some hfound, by simpa using List.find?_some hfound⟩
  · rintro ⟨hmem, rfl⟩
    have hsome : (type.property? property.name).isSome = true := by
      rw [property?, List.find?_isSome]
      exact ⟨property, hmem, by simp⟩
    obtain ⟨found, hfound⟩ := Option.isSome_iff_exists.mp hsome
    obtain ⟨hfield, hname⟩ := Object.mem_of_property? hfound
    rw [hfound, List.inj_on_of_nodup_map h hfield (List.mem_of_mem_filter hmem) hname]

theorem mem_writable {type : EntityType} {property : Field} :
    property ∈ type.writable ↔ property ∈ type.properties ∧ property.readOnly = false := by
  simp [writable]

end EntityType

/-! ## Fields -/

namespace Value

variable {fields : List Field} {values : List Value}

theorem valueAt?_of_mem (hnames : (fields.map Field.name).Nodup)
    (h : List.Forall₂ (fun field value => field.type.Holds value) fields values) {field : Field}
    (hfield : field ∈ fields) :
    ∃ value, valueAt? field.name fields values = some value ∧ field.type.Holds value := by
  induction h with
  | nil => cases hfield
  | @cons first value fields values hfirst _ ih =>
      obtain ⟨hnew, hnames⟩ := List.nodup_cons.mp hnames
      rcases List.mem_cons.mp hfield with rfl | hfield
      · exact ⟨value, if_pos rfl, hfirst⟩
      · have hne : first.name ≠ field.name := fun hsame => hnew (hsame ▸ List.mem_map_of_mem hfield)
        rw [valueAt?, if_neg hne]
        exact ih hnames hfield

theorem valueAt?_replaceAt_self {name : String} {current : Value}
    (h : valueAt? name fields values = some current) (new : Value) :
    valueAt? name fields (Object.replaceAt name new fields values) = some new := by
  induction fields generalizing values with
  | nil => cases values <;> cases h
  | cons field fields ih =>
      cases values with
      | nil => cases h
      | cons value values =>
          by_cases hname : field.name = name
          · rw [Object.replaceAt, if_pos hname, valueAt?, if_pos hname]
          · rw [valueAt?, if_neg hname] at h
            rw [Object.replaceAt, if_neg hname, valueAt?, if_neg hname, ih h]

/-- To put a value where it is already changes nothing. -/
theorem replaceAt_valueAt? {name : String} {current : Value}
    (h : valueAt? name fields values = some current) :
    Object.replaceAt name current fields values = values := by
  induction fields generalizing values with
  | nil => cases values <;> cases h
  | cons field fields ih =>
      cases values with
      | nil => cases h
      | cons value values =>
          by_cases hname : field.name = name
          · rw [valueAt?, if_pos hname, Option.some.injEq] at h
            rw [Object.replaceAt, if_pos hname, h]
          · rw [valueAt?, if_neg hname] at h
            rw [Object.replaceAt, if_neg hname, ih h]

theorem forall₂_replaceAt {R : Field → Value → Prop} (h : List.Forall₂ R fields values)
    {name : String} {new : Value} (hnew : ∀ field ∈ fields, field.name = name → R field new) :
    List.Forall₂ R fields (Object.replaceAt name new fields values) := by
  induction h with
  | nil => exact .nil
  | @cons field value fields values hfirst hrest ih =>
      by_cases hname : field.name = name
      · rw [Object.replaceAt, if_pos hname]
        exact .cons (hnew field List.mem_cons_self hname) hrest
      · rw [Object.replaceAt, if_neg hname]
        exact .cons hfirst (ih fun f hf => hnew f (List.mem_cons_of_mem field hf))

end Value

/-! ## Writing an object -/

namespace EntityType

/-- A value is refused for some reason, or taken. -/
theorem refuses_or_takes (type : EntityType) (name : String) (value : Value) :
    (∃ cause, type.Refuses name value cause) ∨ ∃ stored, type.Takes name value stored := by
  by_cases hproperty : type.HasProperty name
  · obtain ⟨property, hmem, hname⟩ := hproperty
    cases hreadOnly : property.readOnly with
    | true => exact Or.inl ⟨_, .readOnly hmem hname hreadOnly⟩
    | false =>
        have hwritable := mem_writable.mpr ⟨hmem, hreadOnly⟩
        by_cases hconverts : ∃ stored, property.type.Converts value stored
        · exact Or.inr (hconverts.imp fun stored h => ⟨property, hwritable, hname, h⟩)
        · exact Or.inl ⟨_, .mismatch hwritable hname hconverts⟩
  · exact Or.inl ⟨_, .unknown hproperty⟩

end EntityType

namespace Object

variable {o : Object} {name : String} {value : Value}

theorem WellTyped.property? (h : o.WellTyped) {property : Field}
    (hmem : property ∈ o.type.properties) (hname : property.name = name) :
    o.type.property? name = some property :=
  (EntityType.property?_eq_some_iff h.distinct).mpr ⟨hmem, hname⟩

theorem WellTyped.set_of_refuses (h : o.WellTyped) {cause : ModelError}
    (hrefuses : o.type.Refuses name value cause) : o.set name value = .error cause := by
  cases hrefuses with
  | unknown hunknown => rw [set, EntityType.property?_eq_none_iff.mpr hunknown]
  | readOnly hmem hname hreadOnly =>
      simp only [set, h.property? hmem hname, if_pos hreadOnly]
  | mismatch hwritable hname hconverts =>
      obtain ⟨hmem, hreadOnly⟩ := EntityType.mem_writable.mp hwritable
      simp only [set, h.property? hmem hname, hreadOnly, FieldType.accept?_eq_none_iff.mpr hconverts]
      rfl

theorem WellTyped.set_of_takes (h : o.WellTyped) {stored : Value}
    (htakes : o.type.Takes name value stored) : o.set name value = .ok (o.assign name stored) := by
  obtain ⟨property, hwritable, hname, hconverts⟩ := htakes
  obtain ⟨hmem, hreadOnly⟩ := EntityType.mem_writable.mp hwritable
  simp only [set, h.property? hmem hname, hreadOnly, FieldType.accept?_eq_some_iff.mpr hconverts]
  rfl

/-- A property of a well-typed object has a value. -/
theorem WellTyped.get? (h : o.WellTyped) {property : Field} (hmem : property ∈ o.type.properties) :
    ∃ current, o.get? property.name = some current ∧ o.field? property.name = some current ∧
      property.type.Holds current := by
  obtain ⟨current, hvalue, hholds⟩ :=
    Value.valueAt?_of_mem h.distinct h.holds (List.mem_of_mem_filter hmem)
  refine ⟨current, ?_, hvalue, hholds⟩
  rw [Object.get?, Value.propertyOf?, h.property? hmem rfl]
  exact hvalue

theorem WellTyped.isSome_get?_iff (h : o.WellTyped) :
    (o.get? name).isSome = true ↔ o.type.HasProperty name := by
  constructor
  · intro hsome
    by_contra hproperty
    rw [Object.get?, Value.propertyOf?, EntityType.property?_eq_none_iff.mpr hproperty] at hsome
    cases hsome
  · rintro ⟨property, hmem, rfl⟩
    obtain ⟨current, hcurrent, -⟩ := h.get? hmem
    exact Option.isSome_iff_exists.mpr ⟨current, hcurrent⟩

theorem get?_assign_of_ne {other : String} (hne : other ≠ name) (new : Value) :
    (o.assign name new).get? other = o.get? other :=
  congrArg (fun found => if (o.type.property? other).isSome then found else none)
    (Value.valueAt?_replaceAt_of_ne hne new o.type.fields o.values)

theorem WellTyped.get?_assign (h : o.WellTyped) {property : Field} (hmem : property ∈ o.type.properties)
    (new : Value) : (o.assign property.name new).get? property.name = some new := by
  obtain ⟨current, -, hvalue, -⟩ := h.get? hmem
  have hproperty : (o.assign property.name new).type.property? property.name = some property :=
    h.property? hmem rfl
  rw [Object.get?, Value.propertyOf?, hproperty]
  exact Value.valueAt?_replaceAt_self hvalue new

theorem WellTyped.assign (h : o.WellTyped) {property : Field} (hmem : property ∈ o.type.fields)
    {new : Value} (hnew : property.type.Holds new) : (o.assign property.name new).WellTyped where
  distinct := h.distinct
  holds := Value.forall₂_replaceAt h.holds fun _ hfield hname =>
    List.inj_on_of_nodup_map h.distinct hfield hmem hname ▸ hnew

theorem WellTyped.fresh {type : EntityType} (hnames : (type.fields.map Field.name).Nodup)
    (hinitial : ∀ field ∈ type.fields, field.type.Holds field.type.initial) :
    (Object.fresh type).WellTyped where
  distinct := hnames
  holds := List.forall₂_map_right_iff.mpr (List.forall₂_same.mpr hinitial)

end Object

/-! ## Writing an entity -/

namespace Entity

variable {e : Entity} {name : String} {value : Value}

theorem write_of_refuses (h : e.object.WellTyped) {cause : ModelError}
    (hrefuses : e.object.type.Refuses name value cause) :
    e.write name value = ((e, []), .error cause) := by
  rw [write, h.set_of_refuses hrefuses]

theorem write_of_takes (h : e.object.WellTyped) {stored : Value}
    (htakes : e.object.type.Takes name value stored) :
    e.write name value = (({ e with object := e.object.assign name stored }, []), .ok ()) := by
  rw [write, h.set_of_takes htakes]

theorem write_eq_error_iff (h : e.object.WellTyped) {cause : ModelError} :
    (e.write name value).2 = .error cause ↔ e.object.type.Refuses name value cause := by
  refine ⟨fun hwrite => ?_, fun hrefuses => by rw [write_of_refuses h hrefuses]⟩
  rcases e.object.type.refuses_or_takes name value with ⟨other, hrefuses⟩ | ⟨stored, htakes⟩
  · rw [write_of_refuses h hrefuses, Except.error.injEq] at hwrite
    exact hwrite ▸ hrefuses
  · rw [write_of_takes h htakes] at hwrite
    cases hwrite

theorem write_eq_ok_iff (h : e.object.WellTyped) :
    (e.write name value).2 = .ok () ↔ ∃ stored, e.object.type.Takes name value stored := by
  refine ⟨fun hwrite => ?_, fun ⟨stored, htakes⟩ => by rw [write_of_takes h htakes]⟩
  rcases e.object.type.refuses_or_takes name value with ⟨cause, hrefuses⟩ | htakes
  · rw [write_of_refuses h hrefuses] at hwrite
    cases hwrite
  · exact htakes

theorem assigned_of_takes (h : e.object.WellTyped) {stored : Value}
    (htakes : e.object.type.Takes name value stored) :
    e.Assigned name value { e with object := e.object.assign name stored } := by
  have htaken := htakes
  obtain ⟨property, hwritable, rfl, hconverts⟩ := htakes
  have hmem := (EntityType.mem_writable.mp hwritable).1
  have hread := h.get?_assign hmem stored
  exact
    { stored := ⟨stored, htaken, hread⟩
      integer := fun n hvalue => ⟨stored, hread, (hconverts.integer hvalue).2⟩
      properties := fun other hne => Object.get?_assign_of_ne hne stored
      fields := fun other hne =>
        Value.valueAt?_replaceAt_of_ne hne stored e.object.type.fields e.object.values
      type := rfl
      wellTyped := h.assign (List.mem_of_mem_filter hmem) hconverts.holds
      entry := rfl }

/-- To write back what is read changes nothing. -/
theorem write_get? (h : e.object.WellTyped) {property : Field}
    (hwritable : property ∈ e.object.type.writable) :
    ∃ current, e.object.get? property.name = some current ∧
      e.write property.name current = ((e, []), .ok ()) := by
  obtain ⟨current, hcurrent, hvalue, hholds⟩ := h.get? (EntityType.mem_writable.mp hwritable).1
  have htakes : e.object.type.Takes property.name current current :=
    ⟨property, hwritable, rfl, hholds.converts⟩
  have hassign : e.object.assign property.name current = e.object := by
    rw [Object.assign, Value.replaceAt_valueAt? hvalue]
  refine ⟨current, hcurrent, ?_⟩
  rw [write_of_takes h htakes, hassign]

end Entity

theorem EntityType.exists_takes_iff_hasInteger {type : EntityType} {name : String} {value : Value} {n : Int}
    (hvalue : value.IsInteger n) :
    (∃ stored, type.Takes name value stored) ↔
      ∃ property ∈ type.writable, property.name = name ∧ property.type.HasInteger n := by
  constructor
  · rintro ⟨stored, property, hwritable, hname, hconverts⟩
    exact ⟨property, hwritable, hname, (hconverts.integer hvalue).1⟩
  · rintro ⟨property, hwritable, hname, hinteger⟩
    obtain ⟨stored, hconverts⟩ := hinteger.converts hvalue
    exact ⟨stored, property, hwritable, hname, hconverts⟩

/-- Access by name is exact, total and atomic. A name that is no property's, a property that is read-only
and a value that does not convert are refused, each for its own reason, and nothing else is; an integer
converts exactly if the property's type has it. What is refused changes nothing; what is taken changes
this property alone, and nobody is told. Every property is read, and what is read from one that can be
written is taken back and changes nothing. -/
theorem by_name_access_exact {e : Entity} (h : e.object.WellTyped) (name : String) (value : Value) :
    (∀ cause, (e.write name value).2 = .error cause ↔ e.object.type.Refuses name value cause) ∧
    ((e.write name value).2 = .ok () ↔ ∃ stored, e.object.type.Takes name value stored) ∧
    (∀ n, value.IsInteger n →
      ((e.write name value).2 = .ok () ↔
        ∃ property ∈ e.object.type.writable, property.name = name ∧ property.type.HasInteger n)) ∧
    (∀ cause, (e.write name value).2 = .error cause → (e.write name value).1 = (e, [])) ∧
    ((e.write name value).2 = .ok () →
      e.Assigned name value (e.write name value).1.1 ∧ (e.write name value).1.2 = []) ∧
    ((e.object.get? name).isSome = true ↔ e.object.type.HasProperty name) ∧
    ∀ property ∈ e.object.type.writable, property.name = name →
      ∃ current, e.object.get? name = some current ∧ e.write name current = ((e, []), .ok ()) := by
  refine ⟨fun cause => Entity.write_eq_error_iff h, Entity.write_eq_ok_iff h, fun n hvalue => ?_,
    fun cause hrefused => ?_, fun htaken => ?_, h.isSome_get?_iff, ?_⟩
  · rw [Entity.write_eq_ok_iff h, EntityType.exists_takes_iff_hasInteger hvalue]
  · rw [Entity.write_of_refuses h ((Entity.write_eq_error_iff h).mp hrefused)]
  · obtain ⟨stored, htakes⟩ := (Entity.write_eq_ok_iff h).mp htaken
    rw [Entity.write_of_takes h htakes]
    exact ⟨Entity.assigned_of_takes h htakes, rfl⟩
  · rintro property hwritable rfl
    exact Entity.write_get? h hwritable

/-- An owner with a level that is not set. -/
def newcomer : Entity := { object := Object.fresh Sample.vipOwner }

theorem newcomer_wellTyped : newcomer.object.WellTyped := by
  refine .fresh (by decide) ?_
  rw [Sample.vipOwner, List.forall_mem_cons, List.forall_mem_singleton]
  exact ⟨.signed (by decide), .null _⟩

/-- A level may be given by an unsigned number if a signed one of 32 bits can be as large, and then has
this number; the key is not to be written. -/
theorem newcomer_access :
    (∃ level, (newcomer.write "level" (.scalar (.uint 7))).1.1.object.get? "level" = some level ∧
      level.IsInteger 7) ∧
    newcomer.write "level" (.scalar (.uint 2147483648)) =
      ((newcomer, []), .error (.typeMismatch "level" "Option < i32 >" "uint")) ∧
    newcomer.write "id" (.scalar (.int 1)) =
      ((newcomer, []), .error (.readOnlyProperty "VipOwner" "id")) := by
  let level : Field := Sample.plain "level" (Sample.maybe (.signed .w32))
  let id : Field := Sample.readOnly "id" (.signed .w64)
  have hlevel : level ∈ Sample.vipOwner.writable := by decide
  have hid : id ∈ Sample.vipOwner.properties := by decide
  refine ⟨?_, ?_, ?_⟩
  · obtain ⟨-, -, hinteger, -, hassigned, -⟩ :=
      by_name_access_exact newcomer_wellTyped "level" (.scalar (.uint 7))
    have hrange : FieldType.SignedRange .w32 7 := by decide
    have htaken := (hinteger 7 (.uint 7)).mpr ⟨level, hlevel, rfl, hrange⟩
    exact (hassigned htaken).1.integer 7 (.uint 7)
  · obtain ⟨hrefused, -, -, hatomic, -⟩ :=
      by_name_access_exact newcomer_wellTyped "level" (.scalar (.uint 2147483648))
    have hrange : ¬ FieldType.SignedRange .w32 2147483648 := by decide
    have hconverts : ¬ ∃ stored, level.type.Converts (.scalar (.uint 2147483648)) stored :=
      (FieldType.converts_iff_hasInteger (.uint 2147483648)).not.mpr hrange
    have hanswer := (hrefused _).mpr (.mismatch hlevel rfl hconverts)
    exact Prod.ext (hatomic _ hanswer) hanswer
  · obtain ⟨hrefused, -, -, hatomic, -⟩ :=
      by_name_access_exact newcomer_wellTyped "id" (.scalar (.int 1))
    have hanswer := (hrefused _).mpr (.readOnly hid rfl rfl)
    exact Prod.ext (hatomic _ hanswer) hanswer

end Chronicle
