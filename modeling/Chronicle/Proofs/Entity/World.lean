import Chronicle.Proofs.Diff.Merge
import Chronicle.Tracking.Store
import Mathlib.Data.List.Nodup

/-!
# Worlds

A world fixes what never changes while a program runs: the token behind each object that is referred
to, the type behind each name of embedded objects, and the type of each entity. What holds values of a
world is sound in it, and everything that writes a sound value keeps this.

## Implementation notes

The types of a world have distinct field names without dots. Of the type of a field only the embedded
type counts, since other values are compared without it.
-/

namespace Chronicle

/-- Whether the fields of a type have distinct names without dots. -/
def EntityType.WellNamed (type : EntityType) : Prop :=
  (type.fields.map Field.name).Nodup ∧ ∀ name ∈ type.fields.map Field.name, Dotless name

/-- What never changes while a program runs. -/
structure World where
  /-- The token of the object with an identity. -/
  token : Nat → Option Token
  /-- The type of embedded objects with a name. -/
  embeddable : String → EntityType
  entity : EntityId → EntityType
  structName_embeddable : ∀ name, (embeddable name).structName = name
  wellNamed_embeddable : ∀ name, (embeddable name).WellNamed
  wellNamed_entity : ∀ id, (entity id).WellNamed

/-- Whether an object that is referred to has its token in a world. -/
def Ref.Sound (w : World) (r : Ref) : Prop := r.token? = w.token r.identity

namespace Value

/-- Whether a value may stand in a field of a type, as far as embedded objects go. -/
def Fits (type : FieldType) : Value → Prop
  | .embedded t _ => type.base = .embedded t.structName
  | _ => True

mutual

/-- Whether all references and embedded objects in a value are those of a world. -/
def Sound (w : World) : Value → Prop
  | .null => True
  | .scalar _ => True
  | .reference target => target.Sound w
  | .collection _ items => ∀ r ∈ items, r.Sound w
  | .embedded type values => type = w.embeddable type.structName ∧ SoundFields w type.fields values

/-- Whether there is one value for each field, sound and of its type. -/
def SoundFields (w : World) : List Field → List Value → Prop
  | field :: fields, value :: values =>
    value.Fits field.type ∧ value.Sound w ∧ SoundFields w fields values
  | [], [] => True
  | _, _ => False

end

end Value

/-- Whether an object has the type of an entity and sound values for its fields. -/
def Object.Sound (w : World) (id : EntityId) (o : Object) : Prop :=
  o.type = w.entity id ∧ Value.SoundFields w o.type.fields o.values

/-- Whether two values are of one type if both are embedded objects. -/
def Value.Alike : Value → Value → Prop
  | .embedded type _, .embedded other _ => type = other
  | _, _ => True

/-- Whether a setter keeps an entity sound, announces one of its fields and reads sound values of one
type. -/
structure Setter.Sound (w : World) (id : EntityId) (s : Setter) : Prop where
  body : ∀ (o : Object) (value : Value), o.Sound w id → value.Sound w → value.Fits s.argument →
    (s.body o value).Sound w id
  attr : s.attr ∈ (w.entity id).fields.map Field.name
  getter : ∀ o : Object, o.Sound w id → (s.getter o).Sound w
  alike : ∀ o other : Object, o.Sound w id → other.Sound w id → (s.getter o).Alike (s.getter other)

/-- Whether a setter leaves what all attributes but its own read. -/
def Setter.Local (s : Setter) : Prop :=
  ∀ (o : Object) (value : Value) (attr : String), attr ≠ s.attr →
    Entity.read (s.body o value) attr = Entity.read o attr

/-- Whether the entries of a change set have distinct names without dots and hold sound values. -/
def ChangeSet.Sound (w : World) : ChangeSet → Prop
  | .nil => True
  | .direct name old rest => Dotless name ∧ name ∉ rest.names ∧ old.Sound w ∧ rest.Sound w
  | .aggregate name before nested rest =>
    Dotless name ∧ name ∉ rest.names ∧ before.Sound w ∧ nested.Sound w ∧ rest.Sound w

/-- Whether names without dots and sound values are recorded. -/
def Recording.Sound (w : World) : Recording → Prop
  | .nil => True
  | .bare name rest => Dotless name ∧ rest.Sound w
  | .value name old rest => Dotless name ∧ old.Sound w ∧ rest.Sound w
  | .aggregate name _ nested rest => Dotless name ∧ nested.Sound w ∧ rest.Sound w

/-- Whether a change listener remembers or answers sound values only. -/
def ChangeListener.Sound (w : World) : ChangeListener → Prop
  | .recording changes => changes.Sound w
  | .fixed source => source.recording.Sound w

/-- Whether an entity and its change listener are sound. -/
structure Entity.Sound (w : World) (id : EntityId) (e : Entity) : Prop where
  object : e.object.Sound w id
  listener : ∀ listener ∈ e.changeListener, listener.Sound w

variable {w : World} {id : EntityId}

/-! ## Fields -/

namespace Value

theorem SoundFields.valueAt? {fields : List Field} {values : List Value} {name : String}
    {value : Value} (h : SoundFields w fields values)
    (hvalue : Value.valueAt? name fields values = some value) :
    ∃ field ∈ fields, field.name = name ∧ value.Fits field.type ∧ value.Sound w := by
  induction fields generalizing values with
  | nil => cases values <;> cases hvalue
  | cons field fields ih =>
      cases values with
      | nil => cases hvalue
      | cons first values =>
          obtain ⟨hfits, hsound, hrest⟩ := h
          by_cases hname : field.name = name
          · rw [Value.valueAt?, if_pos hname, Option.some.injEq] at hvalue
            subst hvalue
            exact ⟨field, List.mem_cons_self, hname, hfits, hsound⟩
          · rw [Value.valueAt?, if_neg hname] at hvalue
            obtain ⟨found, hmem, hfound⟩ := ih hrest hvalue
            exact ⟨found, List.mem_cons_of_mem field hmem, hfound⟩

theorem SoundFields.of_mem {fields : List Field} {values : List Value} {value : Value}
    (h : SoundFields w fields values) (hvalue : value ∈ values) : value.Sound w := by
  induction fields generalizing values with
  | nil =>
      cases values with
      | nil => cases hvalue
      | cons first values => cases h
  | cons field fields ih =>
      cases values with
      | nil => cases hvalue
      | cons first values =>
          obtain ⟨-, hfirst, hrest⟩ := h
          rcases List.mem_cons.mp hvalue with rfl | hvalue
          · exact hfirst
          · exact ih hrest hvalue

theorem SoundFields.replaceAt {fields : List Field} {values : List Value} {name : String}
    {new : Value} (h : SoundFields w fields values) (hnew : new.Sound w)
    (hfits : ∀ field ∈ fields, field.name = name → new.Fits field.type) :
    SoundFields w fields (Object.replaceAt name new fields values) := by
  induction fields generalizing values with
  | nil => exact h
  | cons field fields ih =>
      cases values with
      | nil => exact h
      | cons first values =>
          obtain ⟨hfirst, hsound, hrest⟩ := h
          by_cases hname : field.name = name
          · rw [Object.replaceAt, if_pos hname]
            exact ⟨hfits field List.mem_cons_self hname, hnew, hrest⟩
          · rw [Object.replaceAt, if_neg hname]
            exact ⟨hfirst, hsound, ih hrest fun f hf => hfits f (List.mem_cons_of_mem field hf)⟩

theorem valueAt?_replaceAt_of_ne {attr name : String} (h : attr ≠ name) (new : Value)
    (fields : List Field) (values : List Value) :
    valueAt? attr fields (Object.replaceAt name new fields values) = valueAt? attr fields values := by
  induction fields generalizing values with
  | nil => rfl
  | cons field fields ih =>
      cases values with
      | nil => rfl
      | cons value values =>
          by_cases hname : field.name = name
          · have hattr : field.name ≠ attr := fun heq => h (heq.symm.trans hname)
            rw [Object.replaceAt, if_pos hname, valueAt?, valueAt?, if_neg hattr, if_neg hattr]
          · rw [Object.replaceAt, if_neg hname, valueAt?, valueAt?, ih]

theorem SoundFields.propertyOf? {type : EntityType} {values : List Value} {name : String}
    {value : Value} (h : SoundFields w type.fields values)
    (hvalue : Value.propertyOf? type values name = some value) : value.Sound w := by
  unfold Value.propertyOf? at hvalue
  split_ifs at hvalue
  obtain ⟨-, -, -, -, hsound⟩ := h.valueAt? hvalue
  exact hsound

theorem Sound.wellNamed {type : EntityType} {values : List Value}
    (h : (embedded type values).Sound w) : type.WellNamed := by
  rw [h.1]
  exact w.wellNamed_embeddable type.structName

end Value

/-! ## Writing -/

/-- If every item is put in unless there is one like it, the first items of each kind are left. -/
theorem foldl_unless_like {α : Type} (like : α → α → Bool) (items known : List α) :
    items.foldl (fun known item => if known.any (like item) then known else known ++ [item]) known =
      known ++ (items.filter fun item => !known.any (like item)).eraseDupsBy like := by
  induction items generalizing known with
  | nil => simp [List.eraseDupsBy, List.eraseDupsBy.loop]
  | cons item rest ih =>
      rw [List.foldl_cons, ih]
      by_cases hknown : known.any (like item) = true
      · rw [if_pos hknown, List.filter_cons_of_neg (by simp [hknown])]
      · have hrest : rest.filter (fun other => !(known ++ [item]).any (like other)) =
            (rest.filter fun other => !known.any (like other)).filter
              fun other => decide (like other item = false) := by
          rw [List.filter_filter]
          congr 1
          funext other
          rw [List.any_append, List.any_cons, List.any_nil, Bool.or_false, Bool.not_or, Bool.and_comm]
          cases like other item <;> rfl
        rw [if_neg hknown, List.filter_cons_of_pos (by simpa using hknown), List.eraseDupsBy_cons, hrest,
          List.append_assoc, List.singleton_append]

theorem foldl_unless_like_nil {α : Type} (like : α → α → Bool) (items : List α) :
    items.foldl (fun known item => if known.any (like item) then known else known ++ [item]) [] =
      items.eraseDupsBy like := by
  rw [foldl_unless_like, List.nil_append]
  exact congrArg (List.eraseDupsBy like) (List.filter_eq_self.mpr fun _ _ => rfl)

theorem EntitySet.mem_ofList {items : List Ref} {r : Ref} (h : r ∈ (ofList items).items) :
    r ∈ items := by
  have key : ∀ (rest : List Ref) (set : EntitySet),
      r ∈ (rest.foldl (fun set r => (set.insert r).1) set).items → r ∈ set.items ∨ r ∈ rest := by
    intro rest
    induction rest with
    | nil => exact fun set h => Or.inl h
    | cons first rest ih =>
        intro set hmem
        rcases ih (set.insert first).1 hmem with hmem | hmem
        · unfold EntitySet.insert at hmem
          split_ifs at hmem
          · exact Or.inl hmem
          · rcases List.mem_append.mp hmem with hmem | hmem
            · exact Or.inl hmem
            · exact Or.inr (List.mem_cons.mpr (Or.inl (List.mem_singleton.mp hmem)))
        · exact Or.inr (List.mem_cons_of_mem first hmem)
  rcases key items {} h with h | h
  · cases h
  · exact h

theorem FieldType.accept?_sound {type : FieldType} {value accepted : Value}
    (h : type.accept? value = some accepted) (hv : value.Sound w) :
    accepted.Sound w ∧ accepted.Fits type := by
  induction type with
  | optional inner ih =>
      cases value with
      | null =>
          cases h
          exact ⟨trivial, trivial⟩
      | _ =>
          obtain ⟨hsound, hfits⟩ := ih h
          refine ⟨hsound, ?_⟩
          cases accepted <;> exact hfits
  | signed width =>
      obtain ⟨n, -, h⟩ := Option.bind_eq_some_iff.mp h
      simp only [signedIn?] at h
      split_ifs at h
      cases h
      exact ⟨trivial, trivial⟩
  | unsigned width =>
      obtain ⟨n, -, h⟩ := Option.bind_eq_some_iff.mp h
      simp only [unsignedIn?] at h
      split_ifs at h
      cases h
      exact ⟨trivial, trivial⟩
  | reference target =>
      cases value with
      | reference r =>
          unfold accept? at h
          split_ifs at h
          cases h
          exact ⟨hv, trivial⟩
      | _ => cases h
  | list target =>
      cases value with
      | collection kind items =>
          unfold accept? at h
          split_ifs at h
          cases h
          exact ⟨hv, trivial⟩
      | _ => cases h
  | set target =>
      cases value with
      | collection kind items =>
          unfold accept? at h
          split_ifs at h
          cases h
          exact ⟨fun r hr => hv r (EntitySet.mem_ofList hr), trivial⟩
      | _ => cases h
  | embedded target =>
      cases value with
      | embedded t values =>
          unfold accept? at h
          split_ifs at h with htarget
          cases h
          exact ⟨hv, congrArg FieldType.embedded htarget.symm⟩
      | _ => cases h
  | _ =>
      cases value with
      | scalar s =>
          cases s <;> cases h
          exact ⟨trivial, trivial⟩
      | _ => cases h

theorem FieldType.initial_sound (type : FieldType) :
    type.initial.Fits type ∧ type.initial.Sound w := by
  cases type <;> simp [initial, Value.Fits, Value.Sound]

theorem Value.soundFields_initial (fields : List Field) :
    SoundFields w fields (fields.map (·.type.initial)) := by
  induction fields with
  | nil => trivial
  | cons field fields ih =>
      obtain ⟨hfits, hsound⟩ := field.type.initial_sound (w := w)
      exact ⟨hfits, hsound, ih⟩

namespace Object

/-- An object with nothing assigned is sound. -/
theorem fresh_sound : (fresh (w.entity id)).Sound w id :=
  ⟨rfl, Value.soundFields_initial (w.entity id).fields⟩

theorem Sound.wellNamed {o : Object} (h : o.Sound w id) : o.type.WellNamed := by
  rw [h.1]
  exact w.wellNamed_entity id

theorem Sound.field? {o : Object} (h : o.Sound w id) {name : String} {value : Value}
    (hvalue : o.field? name = some value) : value.Sound w := by
  obtain ⟨-, -, -, -, hsound⟩ := h.2.valueAt? hvalue
  exact hsound

theorem Sound.assign {o : Object} (h : o.Sound w id) {field : Field} (hfield : field ∈ o.type.fields)
    {new : Value} (hnew : new.Sound w) (hfits : new.Fits field.type) :
    (o.assign field.name new).Sound w id := by
  refine ⟨h.1, h.2.replaceAt hnew ?_⟩
  intro other hother hname
  have hsame : other = field :=
    List.inj_on_of_nodup_map h.wellNamed.1 hother hfield hname
  rw [hsame]
  exact hfits

theorem mem_of_property? {type : EntityType} {name : String} {field : Field}
    (h : type.property? name = some field) : field ∈ type.fields ∧ field.name = name :=
  ⟨(List.mem_filter.mp (List.mem_of_find?_eq_some h)).1, by simpa using List.find?_some h⟩

/-- An object stays sound when a property is set by name. -/
theorem Sound.set {o written : Object} (h : o.Sound w id) {name : String} {value : Value}
    (hv : value.Sound w) (hset : o.set name value = .ok written) : written.Sound w id := by
  unfold Object.set at hset
  cases hproperty : o.type.property? name with
  | none =>
      rw [hproperty] at hset
      cases hset
  | some property =>
      rw [hproperty] at hset
      obtain ⟨hmem, rfl⟩ := mem_of_property? hproperty
      dsimp only at hset
      split_ifs at hset
      cases haccept : property.type.accept? value with
      | none =>
          rw [haccept] at hset
          cases hset
      | some accepted =>
          rw [haccept] at hset
          cases hset
          obtain ⟨hsound, hfits⟩ := FieldType.accept?_sound haccept hv
          exact h.assign hmem hsound hfits

end Object

/-- An assignment leaves what other attributes read. -/
theorem Entity.read_assign_of_ne (o : Object) {attr name : String} (h : attr ≠ name) (value : Value) :
    Entity.read (o.assign name value) attr = Entity.read o attr :=
  congrArg (·.getD .null) (Value.valueAt?_replaceAt_of_ne h value o.type.fields o.values)

/-- What an entity reads at any name is sound. -/
theorem Entity.read_sound {o : Object} (h : o.Sound w id) (attr : String) :
    (Entity.read o attr).Sound w := by
  unfold Entity.read
  cases hvalue : o.field? attr with
  | none => trivial
  | some value => exact h.field? hvalue

end Chronicle
