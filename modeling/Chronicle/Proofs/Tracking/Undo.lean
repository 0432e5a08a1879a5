import Chronicle.Proofs.Sample.World

/-!
# Undoing recorded changes

Whether a change set still tells what an attribute held in the beginning: putting back what is recorded
for the attribute, into the value that it holds in the end, has to lead to the value from which the
changes started.

## Implementation notes

At the top an entry for an embedded object becomes a plain one as soon as the whole object is replaced.
The entry of a property inside of embedded objects never does: what such an entry becomes is decided by
the first change of the property, and changes that replace the enclosing object are not seen at all.
`Recoverable` says of values alone, without any entry, when this is enough to lead back.
-/

namespace Chronicle

variable {w : World} {type : FieldType}

namespace ChangeSet

mutual

/-- A value with what an entry holds put back. -/
def undo : Value → Option Entry → Value
  | value, none => value
  | _, some (.direct old) => old
  | .embedded type values, some (.aggregate _ nested) =>
    .embedded type (undoFields nested type.fields values)
  | value, some (.aggregate ..) => value

/-- The values of fields with what the entries of the properties hold put back. -/
def undoFields (nested : ChangeSet) : List Field → List Value → List Value
  | field :: fields, value :: values =>
    (if field.isProperty then undo value (nested.get? field.name) else value) ::
      undoFields nested fields values
  | _, values => values

end

/-- A change set in which changes of an attribute are recorded one after the other. -/
def recordAll (name : String) (set : ChangeSet) (changes : List (Value × Value)) : ChangeSet :=
  changes.foldl (fun set change => set.record name change.1 change.2) set

/-- Whether putting an entry back into the last value leads to the first one. -/
def Entry.Restores (entry : Option Entry) (first last : Value) : Prop :=
  first.same (undo last entry) = true

end ChangeSet

namespace Value

/-- The changes of an attribute that takes the values of a chain. -/
def changes : Value → List Value → List (Value × Value)
  | _, [] => []
  | value, next :: rest => (value, next) :: changes next rest

/-- The first change that makes a difference. -/
def firstChange? (changes : List (Value × Value)) : Option (Value × Value) :=
  changes.find? fun change => !change.1.same change.2

/-- What an embedded object holds in a property. -/
def part? (name : String) : Value → Option Value
  | .embedded type values => propertyOf? type values name
  | _ => none

/-- What an embedded object holds in a property, or null. -/
def part (name : String) (value : Value) : Value := (value.part? name).getD .null

/-- What a change between embedded objects changes in a property of theirs. -/
def partChange? (name : String) : Value × Value → Option (Value × Value)
  | (.embedded type values, .embedded other others) =>
    some ((embedded type values).part name, (embedded other others).part name)
  | _ => none

/-- The changes of a property while embedded objects take each other's place. -/
def partChanges (name : String) (changes : List (Value × Value)) : List (Value × Value) :=
  changes.filterMap (partChange? name)

/-- Whether the first of some values can be found from the last one. If nothing changes, the last value
has to be the first one. If the first change replaces a whole value, this has to be the first value. If
it leads from one embedded object to another, either the first and the last value are embedded objects
too and each property is recoverable, or the last value is none and has to be the first one. -/
inductive Recoverable : Value → List (Value × Value) → Value → Prop where
  | unchanged {first last : Value} {changes : List (Value × Value)} :
    firstChange? changes = none → first.same last = true → Recoverable first changes last
  | replaced {first last old new : Value} {changes : List (Value × Value)} :
    firstChange? changes = some (old, new) → ¬ (old.IsEmbedded ∧ new.IsEmbedded) →
    first.same old = true → Recoverable first changes last
  | parts {first last old new : Value} {changes : List (Value × Value)} :
    firstChange? changes = some (old, new) → old.IsEmbedded → new.IsEmbedded → first.IsEmbedded →
    last.IsEmbedded →
    (∀ name value, first.part? name = some value →
      Recoverable value (partChanges name changes) (last.part name)) →
    Recoverable first changes last
  | flat {first last old new : Value} {changes : List (Value × Value)} :
    firstChange? changes = some (old, new) → old.IsEmbedded → new.IsEmbedded → ¬ last.IsEmbedded →
    first.same last = true → Recoverable first changes last

/-- Whether a value may be compared with others of a property: it is sound, of the property's type, and
free of NaN. -/
structure Comparable (w : World) (type : FieldType) (value : Value) : Prop where
  fits : value.Fits type
  sound : value.Sound w
  nanFree : value.NaNFree

/-! ## Comparable values -/

theorem part_embedded (owner : EntityType) (values : List Value) (name : String) :
    (embedded owner values).part name = (propertyOf? owner values name).getD .null := rfl

theorem comparable_null (type : FieldType) : Comparable w type .null := ⟨trivial, trivial, .null⟩

theorem Comparable.alike {a b : Value} (ha : a.Comparable w type) (hb : b.Comparable w type) :
    a.Alike b :=
  ha.fits.alike hb.fits ha.sound hb.sound

/-- Comparable embedded objects are objects of one type. -/
theorem Comparable.embedded_of {a b : Value} (ha : a.Comparable w type) (hb : b.Comparable w type)
    (hea : a.IsEmbedded) (heb : b.IsEmbedded) :
    ∃ (owner : EntityType) (values others : List Value),
      a = .embedded owner values ∧ b = .embedded owner others := by
  have halike := ha.alike hb
  cases a with
  | embedded owner values =>
      cases b with
      | embedded other others =>
          have howner : owner = other := halike
          subst howner
          exact ⟨owner, values, others, rfl, rfl⟩
      | _ => exact absurd heb id
  | _ => exact absurd hea id

/-- The type of a property in an object of a type. -/
def partType (owner : EntityType) (name : String) : FieldType :=
  ((owner.property? name).map Field.type).getD .bool

theorem propertyOf?_fits {owner : EntityType} (hwell : owner.WellNamed) {values : List Value}
    (h : SoundFields w owner.fields values) {name : String} {value : Value}
    (hvalue : propertyOf? owner values name = some value) :
    value.Fits (partType owner name) := by
  unfold propertyOf? at hvalue
  cases hproperty : owner.property? name with
  | none =>
      rw [hproperty] at hvalue
      cases hvalue
  | some property =>
      rw [hproperty] at hvalue
      obtain ⟨field, hfield, hname, hfits, -⟩ := h.valueAt? hvalue
      obtain ⟨hmem, hproperty'⟩ := Object.mem_of_property? hproperty
      have hsame : field = property :=
        List.inj_on_of_nodup_map hwell.1 hfield hmem (hname.trans hproperty'.symm)
      rw [partType, hproperty, Option.map_some, Option.getD_some, ← hsame]
      exact hfits

/-- The parts of a comparable object are comparable. -/
theorem Comparable.part {owner : EntityType} {values : List Value}
    (h : Comparable w type (.embedded owner values)) (name : String) :
    ((embedded owner values).part name).Comparable w (partType owner name) := by
  have hwell := h.sound.wellNamed
  rw [part_embedded]
  cases hvalue : propertyOf? owner values name with
  | none => exact comparable_null _
  | some value =>
      cases h.nanFree with
      | embedded hnan =>
          exact ⟨propertyOf?_fits hwell h.sound.2 hvalue, h.sound.2.propertyOf? hvalue,
            hnan value (mem_of_propertyOf? hwell hvalue)⟩

/-- What a value of an object's type holds in a property is comparable with what the object holds. -/
theorem Comparable.part_of {owner : EntityType} {values : List Value} {value : Value}
    (h : value.Comparable w type) (howner : Comparable w type (.embedded owner values))
    (name : String) : (value.part name).Comparable w (partType owner name) := by
  cases value with
  | embedded other others =>
      have hother : owner = other := howner.alike h
      exact hother ▸ h.part name
  | _ => exact comparable_null _

theorem isEmbedded_of_same {a b : Value} (h : a.same b = true) : a.IsEmbedded ↔ b.IsEmbedded := by
  cases a <;> cases b <;> first | exact Iff.rfl | cases h

/-- Objects that are the same are the same in all parts. -/
theorem part_same_of_same {owner : EntityType} {values others : List Value}
    (ha : Comparable w type (.embedded owner values)) (hb : Comparable w type (.embedded owner others))
    (hsame : (embedded owner values).same (.embedded owner others) = true) (name : String) :
    ((embedded owner values).part name).same ((embedded owner others).part name) = true := by
  have hwell := ha.sound.wellNamed
  have hparts := ((same_embedded_iff hwell values others).mp hsame).2
  rw [part_embedded, part_embedded]
  cases hvalue : propertyOf? owner values name with
  | none =>
      rw [hb.sound.2.propertyOf?_eq_none hwell ha.sound.2 hvalue]
      rfl
  | some value =>
      obtain ⟨other, hother, hpart⟩ := hparts name value hvalue
      rw [hother]
      exact hpart

/-! ## Changes of parts -/

theorem firstChange?_cons (change : Value × Value) (changes : List (Value × Value)) :
    firstChange? (change :: changes) =
      if change.1.same change.2 then firstChange? changes else some change := by
  rw [firstChange?, List.find?_cons]
  cases change.1.same change.2 <;> rfl

theorem part?_of_flat {value : Value} (h : ¬ value.IsEmbedded) (name : String) :
    value.part? name = none := by
  cases value with
  | embedded type values => exact absurd trivial h
  | _ => rfl

/-- Whether the values before and after each change are comparable. -/
def ComparableChanges (w : World) (type : FieldType) (changes : List (Value × Value)) : Prop :=
  ∀ change ∈ changes, change.1.Comparable w type ∧ change.2.Comparable w type

theorem comparable_changes {value : Value} {rest : List Value}
    (h : ∀ v ∈ value :: rest, v.Comparable w type) :
    ComparableChanges w type (changes value rest) := by
  induction rest generalizing value with
  | nil => exact List.forall_mem_nil _
  | cons next rest ih =>
      rw [List.forall_mem_cons] at h
      exact List.forall_mem_cons.mpr ⟨⟨h.1, h.2 next List.mem_cons_self⟩, ih h.2⟩

theorem partChange?_of_flat {old new : Value} (h : ¬ (old.IsEmbedded ∧ new.IsEmbedded))
    (name : String) : partChange? name (old, new) = none := by
  cases old with
  | embedded owner values =>
      cases new with
      | embedded other others => exact absurd ⟨trivial, trivial⟩ h
      | _ => rfl
  | _ => rfl

/-- The changes of a property of comparable objects are changes between comparable values. -/
theorem ComparableChanges.part {owner : EntityType} {values : List Value}
    {changes : List (Value × Value)} (h : ComparableChanges w type changes)
    (hfirst : Comparable w type (.embedded owner values)) (name : String) :
    ComparableChanges w (partType owner name) (partChanges name changes) := by
  intro change hchange
  obtain ⟨⟨old, new⟩, hmem, hpart⟩ := List.mem_filterMap.mp hchange
  obtain ⟨hold, hnew⟩ := h _ hmem
  by_cases hembedded : old.IsEmbedded ∧ new.IsEmbedded
  · obtain ⟨owner', values', olds, hvalues, rfl⟩ := hfirst.embedded_of hold trivial hembedded.1
    cases hvalues
    obtain ⟨owner', olds', news, holds, rfl⟩ := hold.embedded_of hnew trivial hembedded.2
    cases holds
    cases hpart
    exact ⟨hold.part name, hnew.part name⟩
  · rw [partChange?_of_flat hembedded] at hpart
    cases hpart

end Value

namespace ChangeSet

/-! ## Putting back -/

theorem Entry.restores_none_iff (first last : Value) :
    Entry.Restores none first last ↔ first.same last = true := by
  rw [Entry.Restores, undo]

theorem Entry.restores_direct_iff (old first last : Value) :
    Entry.Restores (some (.direct old)) first last ↔ first.same old = true := by
  rw [Entry.Restores, undo]

theorem propertyAt?_undoFields (nested : ChangeSet) (name : String) (fields : List Field)
    (values : List Value) :
    Value.propertyAt? name fields (undoFields nested fields values) =
      (Value.propertyAt? name fields values).map fun value => undo value (nested.get? name) := by
  induction fields generalizing values with
  | nil => cases values <;> rfl
  | cons field fields ih =>
      cases values with
      | nil => rfl
      | cons value values =>
          rw [undoFields, Value.propertyAt?, Value.propertyAt?]
          by_cases hname : field.name = name
          · rw [if_pos hname, if_pos hname, hname]
            by_cases hproperty : field.isProperty = true
            · simp only [if_pos hproperty, Option.map_some]
            · simp only [if_neg hproperty, Option.map_none]
          · rw [if_neg hname, if_neg hname, ih]

/-- What changed in embedded objects leads back exactly if this holds of every property. -/
theorem Entry.restores_aggregate_iff {owner : EntityType} {values others : List Value}
    (hfirst : Value.Comparable w type (.embedded owner values))
    (hlast : Value.Comparable w type (.embedded owner others)) (before : Value) (nested : ChangeSet) :
    Entry.Restores (some (.aggregate before nested)) (.embedded owner values) (.embedded owner others) ↔
      ∀ name value, (Value.embedded owner values).part? name = some value →
        Entry.Restores (nested.get? name) value ((Value.embedded owner others).part name) := by
  have hwell := hfirst.sound.wellNamed
  unfold Entry.Restores
  rw [undo, Value.same_embedded_iff hwell]
  simp only [Value.propertyOf?_eq hwell.1, propertyAt?_undoFields, Value.part, Value.part?, true_and]
  refine forall₂_congr fun name value => imp_congr_right fun hvalue => ?_
  rw [← Value.propertyOf?_eq hwell.1] at hvalue
  obtain ⟨other, hother, -⟩ := hfirst.sound.2.counterpart hwell hlast.sound.2 hvalue
  rw [Value.propertyOf?_eq hwell.1] at hother
  simp [hother]

/-- What changed in embedded objects is not put back into another value. -/
theorem undo_of_flat {last : Value} (h : ¬ last.IsEmbedded) (before : Value) (nested : ChangeSet) :
    undo last (some (.aggregate before nested)) = last := by
  cases last with
  | embedded owner values => exact absurd trivial h
  | _ => rfl

theorem Entry.isEmbedded_of_restores_aggregate {first last before : Value} {nested : ChangeSet}
    (h : Entry.Restores (some (.aggregate before nested)) first last) (hlast : last.IsEmbedded) :
    first.IsEmbedded := by
  refine (Value.isEmbedded_of_same h).mpr ?_
  cases last with
  | embedded owner values => trivial
  | _ => exact absurd hlast id

/-! ## Comparing once -/

/-- The entry that the comparison of two values brings. -/
def Entry.fresh (old new : Value) : Option Entry := Entry.note none old new (between old new)

theorem Entry.fresh_of_same {old new : Value} (h : old.same new = true) :
    Entry.fresh old new = none := if_pos h

theorem Entry.fresh_of_replaced {old new : Value} (h : ¬ old.same new = true)
    (hflat : ¬ (old.IsEmbedded ∧ new.IsEmbedded)) : Entry.fresh old new = some (.direct old) :=
  Entry.note_none_of_flat h hflat _

/-- Different embedded objects bring an entry with what differs between them. -/
theorem Entry.fresh_of_embedded {old new : Value} (h : ¬ old.same new = true)
    (ho : old.Comparable w type) (hn : new.Comparable w type) (heo : old.IsEmbedded)
    (hen : new.IsEmbedded) : Entry.fresh old new = some (.aggregate old (between old new)) := by
  have hne := between_ne_nil ho.sound hn.sound (ho.alike hn) heo hen (Bool.eq_false_iff.mpr h)
  obtain ⟨owner, values, others, rfl, rfl⟩ := ho.embedded_of hn heo hen
  unfold Entry.fresh Entry.note
  rw [if_neg h]
  exact if_neg fun hempty => hne ((isEmpty_iff _).mp hempty)

/-- A comparison of two objects brings for each part what the comparison of the parts brings. -/
theorem get?_between_part {owner : EntityType} {values others : List Value}
    (ha : Value.Comparable w type (.embedded owner values))
    (hb : Value.Comparable w type (.embedded owner others)) (name : String) :
    (between (.embedded owner values) (.embedded owner others)).get? name =
      Entry.fresh ((Value.embedded owner values).part name)
        ((Value.embedded owner others).part name) := by
  have hwell := ha.sound.wellNamed
  rw [get?_between hwell, Value.part_embedded, Value.part_embedded]
  cases hvalue : Value.propertyOf? owner values name with
  | none =>
      rw [hb.sound.2.propertyOf?_eq_none hwell ha.sound.2 hvalue]
      rfl
  | some value => rfl

/-! ## Entries inside of embedded objects -/

/-- The entry of a property inside of embedded objects after changes of it. -/
def Entry.through (known : Option Entry) (changes : List (Value × Value)) : Option Entry :=
  changes.foldl (fun known change => Entry.keepFirst known (Entry.fresh change.1 change.2)) known

theorem Entry.through_cons (known : Option Entry) (old new : Value) (changes : List (Value × Value)) :
    Entry.through known ((old, new) :: changes) =
      Entry.through (Entry.keepFirst known (Entry.fresh old new)) changes := rfl

theorem Entry.through_cons_of_same (known : Option Entry) {old new : Value} (h : old.same new = true)
    (changes : List (Value × Value)) :
    Entry.through known ((old, new) :: changes) = Entry.through known changes := by
  rw [Entry.through_cons, Entry.fresh_of_same h, Entry.keepFirst_none]

theorem Entry.through_direct (old : Value) (changes : List (Value × Value)) :
    Entry.through (some (.direct old)) changes = some (.direct old) := by
  induction changes with
  | nil => rfl
  | cons change changes ih => exact ih

/-- As long as nothing changes there is no entry. -/
theorem Entry.through_of_unchanged {changes : List (Value × Value)}
    (h : Value.firstChange? changes = none) : Entry.through none changes = none := by
  induction changes with
  | nil => rfl
  | cons change changes ih =>
      rw [Value.firstChange?_cons] at h
      split_ifs at h with hsame
      rw [Entry.through_cons_of_same none hsame]
      exact ih h

/-- A first change that replaces a whole value is kept for ever. -/
theorem Entry.through_of_replaced {changes : List (Value × Value)} {old new : Value}
    (h : Value.firstChange? changes = some (old, new)) (hflat : ¬ (old.IsEmbedded ∧ new.IsEmbedded)) :
    Entry.through none changes = some (.direct old) := by
  induction changes with
  | nil => cases h
  | cons change changes ih =>
      rw [Value.firstChange?_cons] at h
      split_ifs at h with hsame
      · rw [Entry.through_cons_of_same none hsame]
        exact ih h
      · cases h
        rw [Entry.through_cons, Entry.fresh_of_replaced hsame hflat]
        exact Entry.through_direct old changes

/-- A change leaves the entry of embedded objects one, and each property gets its own change. -/
theorem Entry.keepFirst_aggregate {old new : Value} (ho : old.Comparable w type)
    (hn : new.Comparable w type) (before : Value) (inner : ChangeSet) :
    ∃ nested, Entry.keepFirst (some (.aggregate before inner)) (Entry.fresh old new) =
        some (.aggregate before nested) ∧
      ∀ name, nested.get? name =
        Entry.through (inner.get? name) (Value.partChanges name [(old, new)]) := by
  by_cases hembedded : old.IsEmbedded ∧ new.IsEmbedded
  · obtain ⟨owner, values, others, rfl, rfl⟩ := ho.embedded_of hn hembedded.1 hembedded.2
    by_cases hsame : (Value.embedded owner values).same (.embedded owner others) = true
    · refine ⟨inner, ?_, ?_⟩
      · rw [Entry.fresh_of_same hsame]
        rfl
      · intro name
        have hpart := Value.part_same_of_same ho hn hsame name
        exact (Entry.through_cons_of_same (inner.get? name) hpart []).symm
    · have hnodup := (between_sound ho.sound (.embedded owner others)).nodup
      refine ⟨inner.mergeFirst (between (.embedded owner values) (.embedded owner others)), ?_, ?_⟩
      · rw [Entry.fresh_of_embedded hsame ho hn trivial trivial]
        rfl
      · intro name
        rw [get?_mergeFirst inner hnodup, get?_between_part ho hn]
        rfl
  · -- A change that replaces a whole object brings a plain entry, which is dropped.
    refine ⟨inner, ?_, ?_⟩
    · by_cases hsame : old.same new = true
      · rw [Entry.fresh_of_same hsame]
        rfl
      · rw [Entry.fresh_of_replaced hsame hembedded]
        rfl
    · intro name
      have hnone := Value.partChange?_of_flat hembedded name
      rw [Value.partChanges, List.filterMap_cons_none hnone]
      rfl

theorem Entry.through_aggregate {changes : List (Value × Value)}
    (h : Value.ComparableChanges w type changes) (before : Value) (inner : ChangeSet) :
    ∃ nested, Entry.through (some (.aggregate before inner)) changes =
        some (.aggregate before nested) ∧
      ∀ name, nested.get? name =
        Entry.through (inner.get? name) (Value.partChanges name changes) := by
  induction changes generalizing inner with
  | nil => exact ⟨inner, rfl, fun _ => rfl⟩
  | cons change changes ih =>
      obtain ⟨⟨ho, hn⟩, hrest⟩ := List.forall_mem_cons.mp h
      obtain ⟨known, hknown, hparts⟩ := Entry.keepFirst_aggregate ho hn before inner
      obtain ⟨nested, hnested, hothers⟩ := ih hrest known
      refine ⟨nested, (congrArg (Entry.through · changes) hknown).trans hnested, ?_⟩
      intro name
      have hsplit : Value.partChanges name (change :: changes) =
          Value.partChanges name [change] ++ Value.partChanges name changes :=
        List.filterMap_append (l := [change])
      rw [hothers, hparts, hsplit, Entry.through, Entry.through, Entry.through, List.foldl_append]

/-- After a first change between embedded objects each property has the entry that its own changes
bring. -/
theorem Entry.through_of_embedded {changes : List (Value × Value)}
    (h : Value.ComparableChanges w type changes) {old new : Value}
    (hfirst : Value.firstChange? changes = some (old, new)) (ho : old.IsEmbedded)
    (hn : new.IsEmbedded) :
    ∃ nested, Entry.through none changes = some (.aggregate old nested) ∧
      ∀ name, nested.get? name = Entry.through none (Value.partChanges name changes) := by
  induction changes with
  | nil => cases hfirst
  | cons change changes ih =>
      obtain ⟨hchange, hrest⟩ := List.forall_mem_cons.mp h
      obtain ⟨before, after⟩ := change
      rw [Value.firstChange?_cons] at hfirst
      split_ifs at hfirst with hsame
      · -- Before the first change the properties do not change either.
        obtain ⟨nested, hnested, hparts⟩ := ih hrest hfirst
        refine ⟨nested, (Entry.through_cons_of_same none hsame changes).trans hnested, ?_⟩
        intro name
        rw [hparts]
        by_cases hembedded : before.IsEmbedded ∧ after.IsEmbedded
        · obtain ⟨owner, values, others, rfl, rfl⟩ :=
            hchange.1.embedded_of hchange.2 hembedded.1 hembedded.2
          have hpart := Value.part_same_of_same hchange.1 hchange.2 hsame name
          exact (Entry.through_cons_of_same none hpart _).symm
        · rw [Value.partChanges, Value.partChanges,
            List.filterMap_cons_none (Value.partChange?_of_flat hembedded name)]
      · cases hfirst
        obtain ⟨owner, values, others, rfl, rfl⟩ := hchange.1.embedded_of hchange.2 ho hn
        obtain ⟨nested, hnested, hparts⟩ := Entry.through_aggregate hrest
          (.embedded owner values) (between (.embedded owner values) (.embedded owner others))
        refine ⟨nested, ?_, ?_⟩
        · rw [Entry.through_cons, Entry.fresh_of_embedded hsame hchange.1 hchange.2 ho hn]
          exact hnested
        · intro name
          rw [hparts, get?_between_part hchange.1 hchange.2]
          rfl

/-! ## When an entry leads back -/

theorem Entry.restores_through_of_unchanged {first last : Value} {changes : List (Value × Value)}
    (h : Value.firstChange? changes = none) :
    Entry.Restores (Entry.through none changes) first last ↔
      Value.Recoverable first changes last := by
  rw [Entry.through_of_unchanged h, Entry.restores_none_iff]
  constructor
  · exact .unchanged h
  · intro hrecoverable
    cases hrecoverable with
    | unchanged _ hsame => exact hsame
    | replaced hchange =>
        rw [h] at hchange
        cases hchange
    | parts hchange =>
        rw [h] at hchange
        cases hchange
    | flat hchange =>
        rw [h] at hchange
        cases hchange

theorem Entry.restores_through_of_replaced {first last old new : Value}
    {changes : List (Value × Value)} (h : Value.firstChange? changes = some (old, new))
    (hflat : ¬ (old.IsEmbedded ∧ new.IsEmbedded)) :
    Entry.Restores (Entry.through none changes) first last ↔
      Value.Recoverable first changes last := by
  rw [Entry.through_of_replaced h hflat, Entry.restores_direct_iff]
  constructor
  · exact .replaced h hflat
  · intro hrecoverable
    cases hrecoverable with
    | unchanged hnone =>
        rw [h] at hnone
        cases hnone
    | replaced hchange _ hsame =>
        rw [h] at hchange
        cases hchange
        exact hsame
    | parts hchange ho hn =>
        rw [h] at hchange
        cases hchange
        exact absurd ⟨ho, hn⟩ hflat
    | flat hchange ho hn =>
        rw [h] at hchange
        cases hchange
        exact absurd ⟨ho, hn⟩ hflat

theorem Entry.restores_through_of_embedded {first last old new : Value}
    {changes : List (Value × Value)} (h : Value.firstChange? changes = some (old, new))
    (ho : old.IsEmbedded) (hn : new.IsEmbedded) (hfirst : first.Comparable w type)
    (hlast : last.Comparable w type) (hchanges : Value.ComparableChanges w type changes)
    (hparts : ∀ name value, first.part? name = some value →
      (Entry.Restores (Entry.through none (Value.partChanges name changes)) value (last.part name) ↔
        Value.Recoverable value (Value.partChanges name changes) (last.part name))) :
    Entry.Restores (Entry.through none changes) first last ↔
      Value.Recoverable first changes last := by
  obtain ⟨nested, hnested, hentries⟩ := Entry.through_of_embedded hchanges h ho hn
  rw [hnested]
  constructor
  · intro hrestores
    by_cases hel : last.IsEmbedded
    · have hef := Entry.isEmbedded_of_restores_aggregate hrestores hel
      obtain ⟨owner, values, others, rfl, rfl⟩ := hfirst.embedded_of hlast hef hel
      rw [Entry.restores_aggregate_iff hfirst hlast] at hrestores
      refine .parts h ho hn hef hel fun name value hvalue => ?_
      rw [← hparts name value hvalue, ← hentries name]
      exact hrestores name value hvalue
    · rw [Entry.Restores, undo_of_flat hel] at hrestores
      exact .flat h ho hn hel hrestores
  · intro hrecoverable
    cases hrecoverable with
    | unchanged hnone =>
        rw [h] at hnone
        cases hnone
    | replaced hchange hflat =>
        rw [h] at hchange
        cases hchange
        exact absurd ⟨ho, hn⟩ hflat
    | parts hchange _ _ hef hel hall =>
        obtain ⟨owner, values, others, rfl, rfl⟩ := hfirst.embedded_of hlast hef hel
        rw [Entry.restores_aggregate_iff hfirst hlast]
        intro name value hvalue
        rw [hentries, hparts name value hvalue]
        exact hall name value hvalue
    | flat _ _ _ hel hsame =>
        rw [Entry.Restores, undo_of_flat hel]
        exact hsame

theorem Entry.restores_through_of_parts {first last : Value} {changes : List (Value × Value)}
    (hfirst : first.Comparable w type) (hlast : last.Comparable w type)
    (hchanges : Value.ComparableChanges w type changes)
    (hparts : ∀ name value, first.part? name = some value →
      (Entry.Restores (Entry.through none (Value.partChanges name changes)) value (last.part name) ↔
        Value.Recoverable value (Value.partChanges name changes) (last.part name))) :
    Entry.Restores (Entry.through none changes) first last ↔
      Value.Recoverable first changes last := by
  cases h : Value.firstChange? changes with
  | none => exact Entry.restores_through_of_unchanged h
  | some change =>
      obtain ⟨old, new⟩ := change
      by_cases hembedded : old.IsEmbedded ∧ new.IsEmbedded
      · exact Entry.restores_through_of_embedded h hembedded.1 hembedded.2 hfirst hlast hchanges
          hparts
      · exact Entry.restores_through_of_replaced h hembedded

/-- The entry that changes bring inside of embedded objects leads back exactly if the first value is
recoverable. -/
theorem Entry.restores_through_iff {first last : Value} {changes : List (Value × Value)}
    (hfirst : first.Comparable w type) (hlast : last.Comparable w type)
    (hchanges : Value.ComparableChanges w type changes) :
    Entry.Restores (Entry.through none changes) first last ↔
      Value.Recoverable first changes last := by
  induction first using Value.inductionOnParts generalizing type changes last with
  | flat first hflat =>
      refine Entry.restores_through_of_parts hfirst hlast hchanges fun name value hvalue => ?_
      rw [Value.part?_of_flat hflat] at hvalue
      cases hvalue
  | embedded owner values ih =>
      refine Entry.restores_through_of_parts hfirst hlast hchanges fun name value hvalue => ?_
      have hmem := Value.mem_of_propertyOf? hfirst.sound.wellNamed hvalue
      have hpart := hfirst.part name
      rw [Value.part, hvalue] at hpart
      exact ih value hmem hpart (hlast.part_of hfirst name) (hchanges.part hfirst name)

/-! ## Entries of a whole attribute -/

/-- The entry of an attribute after changes of it. -/
def Entry.along (known : Option Entry) (changes : List (Value × Value)) : Option Entry :=
  changes.foldl
    (fun known change => Entry.note known change.1 change.2 (between change.1 change.2)) known

theorem get?_recordAll (name : String) (set : ChangeSet) (changes : List (Value × Value)) :
    (recordAll name set changes).get? name = Entry.along (set.get? name) changes := by
  induction changes generalizing set with
  | nil => rfl
  | cons change changes ih =>
      have hrecord : (set.record name change.1 change.2).get? name =
          Entry.note (set.get? name) change.1 change.2 (between change.1 change.2) := by
        rw [record, get?_note, if_pos rfl]
      exact (ih _).trans (congrArg (Entry.along · changes) hrecord)

/-- Between embedded objects a change is noted as it is taken over inside of others. -/
theorem Entry.note_eq_keepFirst (known : Option Entry) {old new : Value}
    (ho : old.Comparable w type) (hn : new.Comparable w type) (heo : old.IsEmbedded)
    (hen : new.IsEmbedded) :
    Entry.note known old new (between old new) = Entry.keepFirst known (Entry.fresh old new) := by
  by_cases hsame : old.same new = true
  · rw [Entry.fresh_of_same hsame, Entry.keepFirst_none, Entry.note_of_same known hsame]
  · rw [Entry.fresh_of_embedded hsame ho hn heo hen]
    obtain ⟨owner, values, others, rfl, rfl⟩ := ho.embedded_of hn heo hen
    rcases known with _ | (first | ⟨before, inner⟩)
    · exact Entry.fresh_of_embedded hsame ho hn trivial trivial
    · exact if_neg hsame
    · exact if_neg hsame

theorem Entry.along_eq_through (known : Option Entry) {value : Value} {rest : List Value}
    (h : ∀ v ∈ value :: rest, v.Comparable w type) (hembedded : ∀ v ∈ value :: rest, v.IsEmbedded) :
    Entry.along known (Value.changes value rest) =
      Entry.through known (Value.changes value rest) := by
  induction rest generalizing known value with
  | nil => rfl
  | cons next rest ih =>
      rw [List.forall_mem_cons] at h hembedded
      have hnote := Entry.note_eq_keepFirst known h.1 (h.2 next List.mem_cons_self) hembedded.1
        (hembedded.2 next List.mem_cons_self)
      rw [Value.changes, Entry.through_cons, ← hnote]
      exact ih _ h.2 hembedded.2

theorem Entry.along_direct (old : Value) (changes : List (Value × Value)) :
    Entry.along (some (.direct old)) changes = some (.direct old) := by
  induction changes with
  | nil => rfl
  | cons change changes ih =>
      have hnote := Entry.note_direct old change.1 change.2 (between change.1 change.2)
      exact (congrArg (Entry.along · changes) hnote).trans ih

/-- What the entry of an attribute says of the first value while the attribute holds another one. -/
def Entry.Keeps (first current : Value) : Option Entry → Prop
  | none => first.same current = true
  | some (.direct old) => first.same old = true
  | some (.aggregate before _) => first.same before = true ∧ current.IsEmbedded

theorem Entry.Keeps.note {known : Option Entry} {first current next : Value}
    (h : Entry.Keeps first current known) (hfirst : first.Comparable w type)
    (hcurrent : current.Comparable w type) (hnext : next.Comparable w type) :
    Entry.Keeps first next (Entry.note known current next (between current next)) := by
  by_cases hsame : current.same next = true
  · rw [Entry.note_of_same known hsame]
    rcases known with _ | (old | ⟨before, inner⟩)
    · exact Value.same_trans hfirst.sound hcurrent.sound hnext.sound h hsame
    · exact h
    · exact ⟨h.1, (Value.isEmbedded_of_same hsame).mp h.2⟩
  · by_cases hembedded : current.IsEmbedded ∧ next.IsEmbedded
    · rw [Entry.note_eq_keepFirst known hcurrent hnext hembedded.1 hembedded.2,
        Entry.fresh_of_embedded hsame hcurrent hnext hembedded.1 hembedded.2]
      rcases known with _ | (old | ⟨before, inner⟩)
      · exact ⟨h, hembedded.2⟩
      · exact h
      · exact ⟨h.1, hembedded.2⟩
    · rcases known with _ | (old | ⟨before, inner⟩)
      · rw [← Entry.fresh, Entry.fresh_of_replaced hsame hembedded]
        exact h
      · rw [Entry.note_direct]
        exact h
      · rw [Entry.note_aggregate_of_flat hsame hembedded]
        exact h.1

/-- As soon as an attribute holds something else than an embedded object, its entry leads back. -/
theorem Entry.restores_along {known : Option Entry} {first value : Value} {rest : List Value}
    (hknown : Entry.Keeps first value known) (hfirst : first.Comparable w type)
    (h : ∀ v ∈ value :: rest, v.Comparable w type) (hflat : ∃ v ∈ value :: rest, ¬ v.IsEmbedded) :
    Entry.Restores (Entry.along known (Value.changes value rest)) first (rest.getLastD value) := by
  induction rest generalizing known value with
  | nil =>
      have hvalue : ¬ value.IsEmbedded := by simpa using hflat
      rcases known with _ | (old | ⟨before, inner⟩)
      · exact (Entry.restores_none_iff _ _).mpr hknown
      · exact (Entry.restores_direct_iff _ _ _).mpr hknown
      · exact absurd hknown.2 hvalue
  | cons next rest ih =>
      rw [List.forall_mem_cons] at h
      have hnext := h.2 next List.mem_cons_self
      have hnote := hknown.note hfirst h.1 hnext
      rw [List.getLastD_cons]
      by_cases hrest : ∃ v ∈ next :: rest, ¬ v.IsEmbedded
      · exact ih hnote h.2 hrest
      · -- This value is the last one that is no embedded object, so that it is replaced now.
        have hvalue : ¬ value.IsEmbedded := by
          obtain ⟨v, hv, hnot⟩ := hflat
          rcases List.mem_cons.mp hv with rfl | hv
          · exact hnot
          · exact absurd ⟨v, hv, hnot⟩ hrest
        have hembedded : next.IsEmbedded := by
          by_contra hnot
          exact hrest ⟨next, List.mem_cons_self, hnot⟩
        have hchanged : ¬ value.same next = true := fun hsame =>
          hvalue ((Value.isEmbedded_of_same hsame).mpr hembedded)
        obtain ⟨old, hold⟩ : ∃ old,
            Entry.note known value next (between value next) = some (.direct old) := by
          rcases known with _ | (old | ⟨before, inner⟩)
          · exact ⟨value, Entry.fresh_of_replaced hchanged fun hboth => hvalue hboth.1⟩
          · exact ⟨old, Entry.note_direct _ _ _ _⟩
          · exact absurd hknown.2 hvalue
        rw [hold] at hnote
        have halong : Entry.along known (Value.changes value (next :: rest)) = some (.direct old) :=
          (congrArg (Entry.along · (Value.changes next rest)) hold).trans (Entry.along_direct old _)
        rw [halong, Entry.restores_direct_iff]
        exact hnote

/-- Whether every property in which two values differ has an entry with what the first value holds in
it, at every depth. -/
inductive Entry.Records : Option Entry → Value → Value → Prop where
  | same {entry : Option Entry} {first last : Value} :
    first.same last = true → Records entry first last
  | direct {old first last : Value} : first.same old = true → Records (some (.direct old)) first last
  | aggregate {before first last : Value} {nested : ChangeSet} :
    (∀ name value, first.part? name = some value →
      Records (nested.get? name) value (last.part name)) →
    Records (some (.aggregate before nested)) first last

/-- An entry that leads back records all differences. -/
theorem Entry.Restores.records {entry : Option Entry} {first last : Value}
    (h : Entry.Restores entry first last) (hfirst : first.Comparable w type)
    (hlast : last.Comparable w type) : Entry.Records entry first last := by
  induction first using Value.inductionOnParts generalizing entry type last with
  | flat first hflat =>
      rcases entry with _ | (old | ⟨before, nested⟩)
      · exact .same ((Entry.restores_none_iff _ _).mp h)
      · exact .direct ((Entry.restores_direct_iff _ _ _).mp h)
      · refine .aggregate fun name value hvalue => ?_
        rw [Value.part?_of_flat hflat] at hvalue
        cases hvalue
  | embedded owner values ih =>
      rcases entry with _ | (old | ⟨before, nested⟩)
      · exact .same ((Entry.restores_none_iff _ _).mp h)
      · exact .direct ((Entry.restores_direct_iff _ _ _).mp h)
      · by_cases hel : last.IsEmbedded
        · obtain ⟨owner', values', others, hvalues, rfl⟩ := hfirst.embedded_of hlast trivial hel
          cases hvalues
          rw [Entry.restores_aggregate_iff hfirst hlast] at h
          refine .aggregate fun name value hvalue => ?_
          have hmem := Value.mem_of_propertyOf? hfirst.sound.wellNamed hvalue
          have hpart := hfirst.part name
          rw [Value.part, hvalue] at hpart
          exact ih value hmem (h name value hvalue) hpart (hlast.part name)
        · rw [Entry.Restores, undo_of_flat hel] at h
          exact .same h

end ChangeSet

open ChangeSet in
/-- Putting back what is recorded of an attribute that took the values of a chain leads to the first one
of them exactly if the attribute held something else than an embedded object in between, or if the first
value is recoverable. If it does, every property in which the first and the last value differ is recorded
with what the first value holds. -/
theorem undo_recorded_iff (name : String) {first : Value} {rest : List Value}
    (h : ∀ value ∈ first :: rest, value.Comparable w type) :
    (Entry.Restores ((recordAll name .nil (Value.changes first rest)).get? name) first
        (rest.getLastD first) ↔
      ((∀ value ∈ first :: rest, value.IsEmbedded) →
        Value.Recoverable first (Value.changes first rest) (rest.getLastD first))) ∧
    (Entry.Restores ((recordAll name .nil (Value.changes first rest)).get? name) first
        (rest.getLastD first) →
      Entry.Records ((recordAll name .nil (Value.changes first rest)).get? name) first
        (rest.getLastD first)) := by
  have hfirst := h first List.mem_cons_self
  have hlast : (rest.getLastD first).Comparable w type := h _ List.getLastD_mem_cons
  refine ⟨?_, fun hrestores => hrestores.records hfirst hlast⟩
  rw [get?_recordAll]
  by_cases hembedded : ∀ value ∈ first :: rest, value.IsEmbedded
  · rw [imp_iff_right hembedded, get?, Entry.along_eq_through none h hembedded]
    exact Entry.restores_through_iff hfirst hlast (Value.comparable_changes h)
  · have hflat : ∃ value ∈ first :: rest, ¬ value.IsEmbedded := by
      push Not at hembedded
      exact hembedded
    have hself : Entry.Keeps first first none := Value.same_self hfirst.sound hfirst.nanFree
    exact iff_of_true (Entry.restores_along hself hfirst h hflat)
      fun hall => absurd hall hembedded

namespace Sample

/-- A place that was surveyed, or that was not. -/
def place (survey : Value) : Value := .embedded geo [.null, .null, survey]

/-- A survey with a code. -/
def survey (code : String) : Value := .embedded datum [.scalar (.text code), .null]

theorem comparable_survey (code : String) :
    (survey code).Comparable world (maybe (.embedded "Datum")) where
  fits := rfl
  sound := ⟨rfl, trivial, trivial, trivial, trivial, trivial⟩
  nanFree := .embedded (by
    have hcode : (Value.scalar (.text code)).NaNFree := .scalar rfl
    simp [hcode, Value.NaNFree.null])

theorem comparable_place {value : Value} (h : value.Comparable world (maybe (.embedded "Datum"))) :
    (place value).Comparable world (maybe (.embedded "Geo")) where
  fits := rfl
  sound := ⟨rfl, trivial, trivial, trivial, trivial, h.fits, h.sound, trivial⟩
  nanFree := .embedded (by simp [h.nanFree, Value.NaNFree.null])

end Sample

open ChangeSet Sample in
/-- A survey that only gets another code can be found from the other code. -/
theorem survey_recoverable_from_code :
    (∀ value ∈ [place (survey "a"), place (survey "b")],
      value.Comparable world (maybe (.embedded "Geo"))) ∧
    Value.Recoverable (place (survey "a")) (Value.changes (place (survey "a")) [place (survey "b")])
      (place (survey "b")) := by
  have hplaces : ∀ value ∈ [place (survey "a"), place (survey "b")],
      value.Comparable world (maybe (.embedded "Geo")) := by
    simp [comparable_place (comparable_survey _)]
  have hembedded : ∀ value ∈ [place (survey "a"), place (survey "b")], value.IsEmbedded := by
    simp [place, Value.IsEmbedded]
  refine ⟨hplaces, (undo_recorded_iff "geo" hplaces).1.mp ?_ hembedded⟩
  change Value.same _ _ = true
  decide +kernel

open ChangeSet Sample in
/-- A survey that gets another code and is dropped cannot be found any more. -/
theorem survey_lost_with_place :
    (∀ value ∈ [place (survey "a"), place (survey "b"), place .null],
      value.Comparable world (maybe (.embedded "Geo"))) ∧
    ¬ Entry.Restores ((recordAll "geo" .nil (Value.changes (place (survey "a"))
      [place (survey "b"), place .null])).get? "geo") (place (survey "a")) (place .null) := by
  refine ⟨?_, ?_⟩
  · simp [comparable_place (comparable_survey _), comparable_place (Value.comparable_null _)]
  · change ¬ Value.same _ _ = true
    decide +kernel

end Chronicle
