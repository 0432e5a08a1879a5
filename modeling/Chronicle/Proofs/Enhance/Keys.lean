import Chronicle.Proofs.Enhance.Descriptions
import Chronicle.Proofs.Sample.Sources
import Mathlib.Data.List.Nodup
import Mathlib.Data.List.Perm.Basic
import Mathlib.Tactic.MkIffOfInductiveProp

/-!
# The key of a description

The key of an entity is the property with the flag for it, or else the property named `id`, in whatever
order the fields are declared. That order does not tell either which properties are read-only, with one
exception: a property `id` before the one with the flag is taken for the key when it is read, and it stays
read-only although it is not the key in the end.

## Implementation notes

The properties are read one after another with the key so far. Where at most one of them has the flag,
the properties before it and those after it have none. So it is enough to know how properties without the
flag are read, before any key and after one.
-/

namespace Chronicle

namespace Enhance

open Source

namespace Description

/-! ## Properties one after another -/

/-- Whether a property is taken for the key, given the key so far. -/
def takesKey (key : Option String) (field : ClassField) : Bool :=
  field.options.id || (key.isNone && field.name = "id")

/-- The key after one more property. -/
def nextKey (key : Option String) (field : ClassField) : Option String :=
  if takesKey key field then some field.name else key

/-- The key after properties, given the key before them. -/
def keyAfter (key : Option String) (props : List ClassField) : Option String :=
  props.foldl nextKey key

/-- A property as it is described, given whether it is read-only. -/
def describe (field : ClassField) (readOnly : Bool) : DescribedProperty where
  name := field.name
  type := field.type
  kind := kindOf field.options field.type
  readOnly := readOnly

/-- Properties as they are described, given the key before them. -/
def describeAll : Option String → List ClassField → List DescribedProperty
  | _, [] => []
  | key, field :: props =>
    describe field (field.options.readOnly || takesKey key field) :: describeAll (nextKey key field) props

theorem describeAll_append (key : Option String) (front back : List ClassField) :
    describeAll key (front ++ back) = describeAll key front ++ describeAll (keyAfter key front) back := by
  induction front generalizing key with
  | nil => rfl
  | cons field front ih => rw [List.cons_append, describeAll, ih, describeAll, List.cons_append]; rfl

/-- Whether fields make one description of another one. -/
@[mk_iff]
structure Adds (known : Partial) (read : List ClassField) (next : Partial) : Prop where
  entryField : next.entryField.toList =
    known.entryField.toList ++ (read.filter (·.options.entry)).map ClassField.name
  keyField : next.keyField = keyAfter known.keyField (read.filter ClassField.isProperty)
  properties : next.properties =
    known.properties ++ describeAll known.keyField (read.filter ClassField.isProperty)

theorem adds_nil_iff {known next : Partial} : Adds known [] next ↔ known = next := by
  rw [adds_iff]
  constructor
  · rintro ⟨hentry, hkey, hprops⟩
    have hsame : known.entryField = next.entryField := by
      ext name
      rw [← Option.mem_toList, ← Option.mem_toList, hentry]
      simp
    cases known
    cases next
    simp_all [keyAfter, describeAll]
  · rintro rfl
    simp [keyAfter, describeAll]

/-- A field that can be added is the first one of those that make the result. -/
theorem adds_cons_iff {known result : Partial} {field : ClassField} {read : List ClassField} :
    Adds known (field :: read) result ↔
      ∃ next, known.add field.name field.type field.options = .ok next ∧ Adds next read result := by
  unfold Partial.add
  by_cases hentry : field.options.entry = true
  · have hprop : field.isProperty = false := by simp [ClassField.isProperty, hentry]
    rw [if_pos hentry]
    cases hknown : known.entryField with
    | none => simp [adds_iff, hentry, hprop, hknown]
    | some name =>
        -- There cannot be two entries, neither as a result nor by adding one.
        have htwo : ∀ names, result.entryField.toList ≠ name :: field.name :: names := by
          intro names
          cases result.entryField <;> simp
        simp [adds_iff, hentry, hknown, htwo]
  · by_cases htransient : field.options.transient = true
    · have hprop : field.isProperty = false := by simp [ClassField.isProperty, htransient]
      simp [adds_iff, hentry, htransient, hprop]
    · have hprop : field.isProperty = true := by simp [ClassField.isProperty, hentry, htransient]
      simp [adds_iff, hentry, htransient, hprop, describeAll, keyAfter, nextKey, takesKey, describe]

/-- What is known after fields, told by what a class reads of them. -/
theorem foldlM_addField_eq_ok {fields : List FieldDecl} {read : List ClassField}
    (hread : List.Forall₂ FieldRead (fields.filter (·.name.isSome)) read) {known result : Partial} :
    fields.foldlM Partial.addField known = .ok result ↔ Adds known read result := by
  induction fields generalizing known read with
  | nil =>
      obtain rfl : read = [] := by simpa using hread
      rw [adds_nil_iff]
      exact ⟨Except.ok.inj, congrArg Except.ok⟩
  | cons declared fields ih =>
      rw [List.foldlM_cons]
      apply Iff.trans bind_eq_ok
      cases hname : declared.name with
      | none =>
          rw [List.filter_cons_of_neg (by simp [hname])] at hread
          simp [Partial.addField, hname, ih hread]
      | some name =>
          rw [List.filter_cons_of_pos (by simp [hname]), List.forall₂_cons_left_iff] at hread
          obtain ⟨field, rest, hfield, hrest, rfl⟩ := hread
          rw [adds_cons_iff]
          have hadd : known.addField declared = known.add field.name field.type field.options := by
            rw [Partial.addField, hname, hfield.type, hfield.options]
            cases hname.symm.trans hfield.name
            rfl
          simp only [hadd, ih hrest]

/-! ## Properties without the flag -/

/-- Whether no property has the flag for the key. -/
def Unflagged (props : List ClassField) : Prop := ∀ field ∈ props, field.options.id = false

variable {props : List ClassField}

theorem nextKey_some_of_unflagged {field : ClassField} (h : field.options.id = false) (key : String) :
    nextKey (some key) field = some key := by
  simp [nextKey, takesKey, h]

theorem keyAfter_some_of_unflagged (h : Unflagged props) (key : String) :
    keyAfter (some key) props = some key := by
  induction props with
  | nil => rfl
  | cons field props ih =>
      obtain ⟨hfirst, hrest⟩ := List.forall_mem_cons.mp h
      rw [keyAfter, List.foldl_cons, nextKey_some_of_unflagged hfirst]
      exact ih hrest

/-- Before any key the property `id` becomes the key. -/
theorem keyAfter_none_of_unflagged (h : Unflagged props) :
    keyAfter none props = if ∃ field ∈ props, field.name = "id" then some "id" else none := by
  induction props with
  | nil => simp [keyAfter]
  | cons field props ih =>
      obtain ⟨hfirst, hrest⟩ := List.forall_mem_cons.mp h
      rw [keyAfter, List.foldl_cons]
      by_cases hname : field.name = "id"
      · have hkey : nextKey none field = some "id" := by simp [nextKey, takesKey, hname]
        rw [hkey, if_pos ⟨field, List.mem_cons_self, hname⟩]
        exact keyAfter_some_of_unflagged hrest "id"
      · have hkey : nextKey none field = none := by simp [nextKey, takesKey, hfirst, hname]
        rw [hkey]
        simpa [hname, keyAfter] using ih hrest

theorem keyAfter_none_eq_some_iff (h : Unflagged props) {field : ClassField} (hmem : field ∈ props) :
    keyAfter none props = some field.name ↔ field.name = "id" := by
  rw [keyAfter_none_of_unflagged h]
  constructor
  · intro hkey
    split at hkey
    · exact (Option.some.inj hkey).symm
    · cases hkey
  · intro hname
    rw [if_pos ⟨field, hmem, hname⟩, hname]

theorem describeAll_some_of_unflagged (h : Unflagged props) (key : String) :
    describeAll (some key) props = props.map fun field => describe field field.options.readOnly := by
  induction props with
  | nil => rfl
  | cons field props ih =>
      obtain ⟨hfirst, hrest⟩ := List.forall_mem_cons.mp h
      rw [describeAll, nextKey_some_of_unflagged hfirst, ih hrest, List.map_cons]
      simp [takesKey, hfirst]

/-- Before any key the property `id` is described as read-only. -/
theorem describeAll_none_of_unflagged (h : Unflagged props)
    (hnames : (props.map ClassField.name).Nodup) :
    describeAll none props =
      props.map fun field => describe field (field.options.readOnly || field.name = "id") := by
  induction props with
  | nil => rfl
  | cons field props ih =>
      obtain ⟨hfirst, hrest⟩ := List.forall_mem_cons.mp h
      obtain ⟨hnew, hnames⟩ := List.nodup_cons.mp hnames
      have htakes : takesKey none field = decide (field.name = "id") := by simp [takesKey, hfirst]
      rw [describeAll, htakes, List.map_cons]
      congr 1
      by_cases hname : field.name = "id"
      · have hkey : nextKey none field = some "id" := by simp [nextKey, htakes, hname]
        rw [hkey, describeAll_some_of_unflagged hrest]
        apply List.map_congr_left
        intro other hother
        have hne : other.name ≠ "id" := by
          rintro hsame
          exact hnew (hname ▸ hsame ▸ List.mem_map_of_mem hother)
        simp [hne]
      · have hkey : nextKey none field = none := by simp [nextKey, htakes, hname]
        rw [hkey]
        exact ih hrest hnames

/-! ## At most one property with the flag -/

/-- Where at most one property has the flag, those before it and those after it have none. -/
theorem unflagged_or_split (hflags : props.countP (·.options.id) ≤ 1) :
    Unflagged props ∨ ∃ front field back, props = front ++ field :: back ∧ field.options.id = true ∧
      Unflagged front ∧ Unflagged back := by
  by_cases hnone : Unflagged props
  · exact .inl hnone
  · obtain ⟨field, hmem, hflag⟩ : ∃ field ∈ props, field.options.id = true := by
      simpa [Unflagged] using hnone
    obtain ⟨front, back, rfl⟩ := List.append_of_mem hmem
    have hsum : front.countP (·.options.id) + (back.countP (·.options.id) + 1) ≤ 1 := by
      simpa [List.countP_append, hflag] using hflags
    have hfront : front.countP (·.options.id) = 0 := by omega
    have hback : back.countP (·.options.id) = 0 := by omega
    refine .inr ⟨front, field, back, rfl, hflag, ?_, ?_⟩
    · simpa [Unflagged] using List.countP_eq_zero.mp hfront
    · simpa [Unflagged] using List.countP_eq_zero.mp hback

theorem keyAfter_split {front back : List ClassField} {field : ClassField}
    (hflag : field.options.id = true) (hback : Unflagged back) :
    keyAfter none (front ++ field :: back) = some field.name := by
  have hkey : ∀ key, nextKey key field = some field.name := by
    intro key
    simp [nextKey, takesKey, hflag]
  rw [keyAfter, List.foldl_append, List.foldl_cons, hkey]
  exact keyAfter_some_of_unflagged hback field.name

/-- The key of properties: the one with the flag, or else the one named `id`. -/
inductive IsKey (props : List ClassField) : Option String → Prop
  | flagged {field : ClassField} (hmem : field ∈ props) (hflag : field.options.id = true) :
      IsKey props (some field.name)
  | named (hnone : Unflagged props) (h : ∃ field ∈ props, field.name = "id") : IsKey props (some "id")
  | missing (hnone : Unflagged props) (h : ¬∃ field ∈ props, field.name = "id") : IsKey props none

theorem isKey_keyAfter (hflags : props.countP (·.options.id) ≤ 1) : IsKey props (keyAfter none props) := by
  rcases unflagged_or_split hflags with hnone | ⟨front, field, back, rfl, hflag, -, hback⟩
  · rw [keyAfter_none_of_unflagged hnone]
    split
    · exact .named hnone ‹_›
    · exact .missing hnone ‹_›
  · rw [keyAfter_split hflag hback]
    exact .flagged (by simp) hflag

theorem IsKey.perm {others : List ClassField} {key : Option String} (h : IsKey props key)
    (hperm : props.Perm others) : IsKey others key := by
  have hunflagged : Unflagged props → Unflagged others := fun hnone field hmem =>
    hnone field (hperm.mem_iff.mpr hmem)
  cases h with
  | flagged hmem hflag => exact .flagged (hperm.mem_iff.mp hmem) hflag
  | named hnone hid => exact .named (hunflagged hnone) (by simpa only [hperm.mem_iff] using hid)
  | missing hnone hid => exact .missing (hunflagged hnone) (by simpa only [hperm.mem_iff] using hid)

/-- There is one key only. -/
theorem IsKey.unique (hflags : props.countP (·.options.id) ≤ 1) {key : Option String}
    (h : IsKey props key) : keyAfter none props = key := by
  rcases unflagged_or_split hflags with hnone | ⟨front, field, back, rfl, hflag, hfront, hback⟩
  · rw [keyAfter_none_of_unflagged hnone]
    cases h with
    | flagged hmem hflag => simp [hnone _ hmem] at hflag
    | named _ hid => rw [if_pos hid]
    | missing _ hid => rw [if_neg hid]
  · rw [keyAfter_split hflag hback]
    cases h with
    | flagged hmem hother =>
        rcases List.mem_append.mp hmem with hmem | hmem
        · simp [hfront _ hmem] at hother
        · rcases List.mem_cons.mp hmem with rfl | hmem
          · rfl
          · simp [hback _ hmem] at hother
    | named hnone _ => simp [hnone field (by simp)] at hflag
    | missing hnone _ => simp [hnone field (by simp)] at hflag

/-- Whether a property `id` that may be written stands before one with the flag. -/
def Misread : List ClassField → Prop
  | [] => False
  | field :: props =>
    (field.name = "id" ∧ field.options.readOnly = false ∧ ∃ later ∈ props, later.options.id = true) ∨
      Misread props

instance decidableMisread : (props : List ClassField) → Decidable (Misread props)
  | [] => inferInstanceAs (Decidable False)
  | _ :: props =>
    have := decidableMisread props
    inferInstanceAs (Decidable (_ ∨ _))

theorem not_misread_of_unflagged (h : Unflagged props) : ¬Misread props := by
  induction props with
  | nil => exact id
  | cons field props ih =>
      obtain ⟨-, hrest⟩ := List.forall_mem_cons.mp h
      rintro (⟨-, -, later, hmem, hflag⟩ | hmisread)
      · simp [hrest later hmem] at hflag
      · exact ih hrest hmisread

theorem misread_split_iff {front back : List ClassField} {field : ClassField}
    (hflag : field.options.id = true) (hback : Unflagged back) :
    Misread (front ++ field :: back) ↔
      ∃ other ∈ front, other.name = "id" ∧ other.options.readOnly = false := by
  induction front with
  | nil =>
      have hlater : ¬∃ later ∈ back, later.options.id = true := by
        simpa [Unflagged] using hback
      simp [Misread, hlater, not_misread_of_unflagged hback]
  | cons other front ih =>
      have hlater : ∃ later ∈ front ++ field :: back, later.options.id = true := ⟨field, by simp, hflag⟩
      rw [List.cons_append, Misread, ih, List.exists_mem_cons_iff, and_iff_left hlater]

/-- A property as it is described, given the key and whether a property `id` was taken for it. -/
def describeBy (key : Option String) (misread : Bool) (field : ClassField) : DescribedProperty :=
  describe field (field.options.readOnly || key = some field.name || (misread && field.name = "id"))

section Split

variable {front back : List ClassField} {field other : ClassField}

/-- Before the property with the flag just `id` is taken for the key. -/
theorem describeBy_front (hflag : field.options.id = true) (hback : Unflagged back) (hmem : other ∈ front)
    (hne : field.name ≠ other.name) :
    describeBy (some field.name) (Misread (front ++ field :: back)) other =
      describe other (other.options.readOnly || other.name = "id") := by
  cases hopen : other.options.readOnly with
  | true => simp [describeBy, hopen]
  | false =>
      by_cases hname : other.name = "id"
      · have hmisread : Misread (front ++ field :: back) :=
          (misread_split_iff hflag hback).mpr ⟨other, hmem, hname, hopen⟩
        simp [describeBy, hopen, hname, hmisread]
      · simp [describeBy, hopen, hne, hname]

/-- After the property with the flag nothing is taken for the key. -/
theorem describeBy_back (hflag : field.options.id = true) (hback : Unflagged back)
    (hne : field.name ≠ other.name) (hapart : ∀ earlier ∈ front, earlier.name ≠ other.name) :
    describeBy (some field.name) (Misread (front ++ field :: back)) other =
      describe other other.options.readOnly := by
  by_cases hmisread : Misread (front ++ field :: back)
  · obtain ⟨taken, hmem, hid, -⟩ := (misread_split_iff hflag hback).mp hmisread
    have hname : other.name ≠ "id" := hid ▸ (hapart taken hmem).symm
    simp [describeBy, hne, hname]
  · simp [describeBy, hne, hmisread]

end Split

/-- Every property is described by its own field, by the key and by one thing about the order. -/
theorem describeAll_eq_map (hnames : (props.map ClassField.name).Nodup)
    (hflags : props.countP (·.options.id) ≤ 1) :
    describeAll none props = props.map (describeBy (keyAfter none props) (Misread props)) := by
  rcases unflagged_or_split hflags with hnone | ⟨front, field, back, rfl, hflag, hfront, hback⟩
  · rw [describeAll_none_of_unflagged hnone hnames]
    apply List.map_congr_left
    intro field hmem
    simp [describeBy, keyAfter_none_eq_some_iff hnone hmem, not_misread_of_unflagged hnone]
  · rw [List.map_append, List.map_cons] at hnames
    obtain ⟨hfrontNames, hbackNames, hapart⟩ := List.nodup_append.mp hnames
    obtain ⟨hnew, -⟩ := List.nodup_cons.mp hbackNames
    have hnext : nextKey (keyAfter none front) field = some field.name := by
      simp [nextKey, takesKey, hflag]
    rw [describeAll_append, describeAll_none_of_unflagged hfront hfrontNames, describeAll, hnext,
      describeAll_some_of_unflagged hback, keyAfter_split hflag hback, List.map_append, List.map_cons]
    congr 1
    · apply List.map_congr_left
      intro other hmem
      have hne : field.name ≠ other.name :=
        (hapart _ (List.mem_map_of_mem hmem) _ List.mem_cons_self).symm
      exact (describeBy_front hflag hback hmem hne).symm
    · congr 1
      · simp [describeBy, takesKey, hflag]
      · apply List.map_congr_left
        intro other hmem
        have hne : field.name ≠ other.name := by
          intro hsame
          exact hnew (hsame ▸ List.mem_map_of_mem hmem)
        refine (describeBy_back hflag hback hne ?_).symm
        intro earlier hearlier
        exact hapart _ (List.mem_map_of_mem hearlier) _
          (List.mem_cons_of_mem _ (List.mem_map_of_mem hmem))

/-- A property that is taken for the key too early is not the key. -/
theorem Misread.exists_taken (h : Misread props) (hnames : (props.map ClassField.name).Nodup)
    (hflags : props.countP (·.options.id) ≤ 1) :
    ∃ field ∈ props, field.name = "id" ∧ field.options.readOnly = false ∧
      keyAfter none props ≠ some "id" := by
  rcases unflagged_or_split hflags with hnone | ⟨front, field, back, rfl, hflag, -, hback⟩
  · exact absurd h (not_misread_of_unflagged hnone)
  · obtain ⟨taken, hmem, hname, hopen⟩ := (misread_split_iff hflag hback).mp h
    refine ⟨taken, by simp [hmem], hname, hopen, ?_⟩
    rw [keyAfter_split hflag hback]
    intro hkey
    rw [List.map_append, List.map_cons] at hnames
    exact (List.nodup_append.mp hnames).2.2 _ (List.mem_map_of_mem hmem) _ List.mem_cons_self
      (hname.trans (Option.some.inj hkey).symm)

/-! ## Fields in another order -/

/-- What is the same about the properties of fields in two orders. -/
structure SameInAnyOrder (props others : List ClassField) (before after : List DescribedProperty) :
    Prop where
  kinds : (after.map fun p => (p.name, p.type, p.kind)).Perm
    (before.map fun p => (p.name, p.type, p.kind))
  /-- Only the property `id` can be read-only in one order and not in the other. -/
  unnamed : (after.filter (·.name ≠ "id")).Perm (before.filter (·.name ≠ "id"))
  perm_iff : after.Perm before ↔ (Misread others ↔ Misread props)

theorem describeBy_congr {field : ClassField} (h : field.name ≠ "id") (key : Option String)
    (misread misread' : Bool) : describeBy key misread field = describeBy key misread' field := by
  simp [describeBy, h]

theorem filter_describeBy (key : Option String) (misread : Bool) (props : List ClassField) :
    (props.map (describeBy key misread)).filter (·.name ≠ "id") =
      (props.filter (·.name ≠ "id")).map (describeBy key false) := by
  rw [List.filter_map]
  apply List.map_congr_left
  intro field hmem
  have hname : field.name ≠ "id" := of_decide_eq_true (List.mem_filter.mp hmem).2
  exact describeBy_congr hname key misread false

/-- Properties that are the same in another order are read in the same way. -/
theorem Misread.of_perm {others : List ClassField} (h : Misread props)
    (hnames : (props.map ClassField.name).Nodup) (hflags : props.countP (·.options.id) ≤ 1)
    (hperm : props.Perm others)
    (hsame : (props.map (describeBy (keyAfter none props) (Misread props))).Perm
      (others.map (describeBy (keyAfter none props) (Misread others)))) : Misread others := by
  obtain ⟨field, hmem, hname, hopen, hkey⟩ := h.exists_taken hnames hflags
  obtain ⟨other, hother, heq⟩ :=
    List.mem_map.mp (hsame.mem_iff.mp (List.mem_map_of_mem (f := describeBy _ _) hmem))
  have hsameName : other.name = field.name := congrArg DescribedProperty.name heq
  obtain rfl := List.inj_on_of_nodup_map hnames (hperm.mem_iff.mpr hother) hmem hsameName
  have hreadOnly := congrArg DescribedProperty.readOnly heq
  simpa [describeBy, describe, hopen, hname, hkey, h] using hreadOnly

theorem sameInAnyOrder {others : List ClassField} (hnames : (props.map ClassField.name).Nodup)
    (hflags : props.countP (·.options.id) ≤ 1) (hperm : props.Perm others)
    (hkey : keyAfter none others = keyAfter none props) :
    SameInAnyOrder props others (describeAll none props) (describeAll none others) := by
  have hnames' : (others.map ClassField.name).Nodup := (hperm.map _).nodup_iff.mp hnames
  have hflags' : others.countP (·.options.id) ≤ 1 := by rwa [← hperm.countP_eq]
  have hafter := describeAll_eq_map hnames' hflags'
  rw [hkey] at hafter
  rw [describeAll_eq_map hnames hflags, hafter]
  refine ⟨?_, ?_, ?_, ?_⟩
  · rw [List.map_map, List.map_map]
    exact (hperm.map _).symm
  · rw [filter_describeBy, filter_describeBy]
    exact ((hperm.filter _).map _).symm
  · intro hsame
    refine ⟨fun h => ?_, fun h => h.of_perm hnames hflags hperm hsame.symm⟩
    exact h.of_perm hnames' hflags' hperm.symm (hkey ▸ hsame)
  · intro hsame
    rw [decide_eq_decide.mpr hsame]
    exact (hperm.map _).symm

theorem readFields_perm {fields others : List FieldDecl} {read : List ClassField}
    (hperm : fields.Perm others) (hread : EntityClass.readFields fields = .ok read) :
    ∃ read', EntityClass.readFields others = .ok read' ∧ read.Perm read' := by
  obtain ⟨read', hothers, hsame⟩ := List.perm_comp_forall₂ (hperm.symm.filter (·.name.isSome))
    (readFields_eq_ok.mp hread)
  exact ⟨read', readFields_eq_ok.mpr hothers, hsame.symm⟩

/-- Fields that make a description make one in another order, with the same entry. -/
theorem Adds.perm {read others : List ClassField} {known : Partial} (h : Adds {} read known)
    (hperm : read.Perm others) :
    ∃ known', Adds {} others known' ∧ known'.entryField = known.entryField := by
  have hentry : known.entryField.toList.Perm
      ((others.filter (·.options.entry)).map ClassField.name) := by
    rw [h.entryField]
    exact (hperm.filter _).map _
  refine ⟨⟨known.entryField, keyAfter none (others.filter ClassField.isProperty),
    describeAll none (others.filter ClassField.isProperty)⟩, ⟨?_, rfl, rfl⟩, rfl⟩
  cases hknown : known.entryField with
  | none =>
      rw [hknown] at hentry
      exact (List.nil_perm.mp hentry).symm
  | some name =>
      rw [hknown] at hentry
      exact List.singleton_perm.mp hentry

/-- The key and the properties of a description, by what a class reads of the fields. -/
theorem key_properties_of_ofFields {declared : Struct} {fields : List FieldDecl} {d : Description}
    {read : List ClassField} (h : ofFields declared fields = .ok d)
    (hread : EntityClass.readFields fields = .ok read) :
    d.keyField = keyAfter none (read.filter ClassField.isProperty) ∧
      d.properties = describeAll none (read.filter ClassField.isProperty) := by
  obtain ⟨-, known, -, -, hknown, -, -, rfl⟩ := ofFields_eq_ok.mp h
  have hadds := (foldlM_addField_eq_ok (readFields_eq_ok.mp hread)).mp hknown
  exact ⟨hadds.keyField, hadds.properties⟩

/-- The fields of a struct with a description make one in any other order where that has the same key. -/
theorem ofFields_perm {declared : Struct} {fields others : List FieldDecl} {d : Description}
    {read read' : List ClassField} (h : ofFields declared fields = .ok d)
    (hread : EntityClass.readFields fields = .ok read)
    (hothers : EntityClass.readFields others = .ok read') (hperm : read.Perm read')
    (hkey : keyAfter none (read'.filter ClassField.isProperty) = d.keyField) :
    ofFields declared others =
      .ok { d with properties := describeAll none (read'.filter ClassField.isProperty) } := by
  obtain ⟨options, known, entryField, hoptions, hknown, hentry, hneeded, rfl⟩ := ofFields_eq_ok.mp h
  have hadds := (foldlM_addField_eq_ok (readFields_eq_ok.mp hread)).mp hknown
  obtain ⟨known', hadds', hentry'⟩ := hadds.perm hperm
  have hkey' : known'.keyField = known.keyField := hadds'.keyField.trans hkey
  apply ofFields_eq_ok.mpr
  refine ⟨options, known', entryField, hoptions,
    (foldlM_addField_eq_ok (readFields_eq_ok.mp hothers)).mpr hadds', hentry'.trans hentry,
    hkey' ▸ hneeded, ?_⟩
  rw [hkey', hadds'.properties]
  rfl

/-! ## Structs -/

/-- How the key and the read-only flags of a description follow from the fields of a struct, as a class
reads them. -/
structure KeySettled (declared : Struct) (read : List ClassField) (d : Description) : Prop where
  key : IsKey (read.filter ClassField.isProperty) d.keyField
  properties : d.properties = (read.filter ClassField.isProperty).map
    (describeBy d.keyField (Misread (read.filter ClassField.isProperty)))
  /-- A property is read-only just if it has the flag for it or is the key, unless one was taken for the
  key before. -/
  readOnly_iff : List.Forall₂
      (fun field p => p.readOnly = true ↔
        field.options.readOnly = true ∨ d.keyField = some field.name)
      (read.filter ClassField.isProperty) d.properties ↔
    ¬Misread (read.filter ClassField.isProperty)
  /-- In any order the fields make a description that differs in its properties only. -/
  anyOrder : ∀ fields : List (FieldDecl × Bool), (fields.map (·.1)).Perm declared.fields.list →
    ∃ others properties, EntityClass.readFields (fields.map (·.1)) = .ok others ∧
      ofStruct { declared with fields := .named fields } = .ok { d with properties } ∧
      SameInAnyOrder (read.filter ClassField.isProperty) (others.filter ClassField.isProperty)
        d.properties properties

theorem readOnly_describeBy_iff (hnames : (props.map ClassField.name).Nodup)
    (hflags : props.countP (·.options.id) ≤ 1) :
    List.Forall₂
        (fun field p => p.readOnly = true ↔
          field.options.readOnly = true ∨ keyAfter none props = some field.name)
        props (props.map (describeBy (keyAfter none props) (Misread props))) ↔
      ¬Misread props := by
  rw [List.forall₂_map_right_iff, List.forall₂_same]
  constructor
  · intro hlaw hmisread
    obtain ⟨field, hmem, hname, hopen, hkey⟩ := hmisread.exists_taken hnames hflags
    simpa [describeBy, describe, hmisread, hname, hopen, hkey] using hlaw field hmem
  · intro hmisread field _
    simp [describeBy, describe, hmisread]

/-- The key of a struct with at most one property flagged for it does not depend on the order of the
fields, nor do the kinds of the properties. Their read-only flags depend on it just where a property `id`
may be taken for the key. -/
theorem key_settled {declared : Struct} {d : Description} {read : List ClassField}
    (h : ofStruct declared = .ok d) (hread : EntityClass.readFields declared.fields.list = .ok read)
    (hnames : ((read.filter ClassField.isProperty).map ClassField.name).Nodup)
    (hflags : (read.filter ClassField.isProperty).countP (·.options.id) ≤ 1) :
    KeySettled declared read d := by
  have hfields : ofFields declared declared.fields.list = .ok d := by
    unfold ofStruct at h
    split at h
    · rename_i fields hnamed
      rwa [hnamed]
    · cases h
  obtain ⟨hkey, hproperties⟩ := key_properties_of_ofFields hfields hread
  refine ⟨?_, ?_, ?_, ?_⟩
  · rw [hkey]
    exact isKey_keyAfter hflags
  · rw [hkey, hproperties]
    exact describeAll_eq_map hnames hflags
  · rw [hkey, hproperties, describeAll_eq_map hnames hflags]
    exact readOnly_describeBy_iff hnames hflags
  · intro fields hperm
    obtain ⟨others, hothers, hsame⟩ := readFields_perm hperm.symm hread
    have hprops := hsame.filter ClassField.isProperty
    have hsameKey : keyAfter none (others.filter ClassField.isProperty) =
        keyAfter none (read.filter ClassField.isProperty) := by
      apply IsKey.unique
      · rwa [← hprops.countP_eq]
      · exact (isKey_keyAfter hflags).perm hprops
    refine ⟨others, _, hothers, ofFields_perm hfields hread hothers hsame (hsameKey.trans hkey.symm), ?_⟩
    rw [hproperties]
    exact sameInAnyOrder hnames hflags hprops hsameKey

/-- The key of a note is its property `id`. -/
theorem note_key_settled :
    ∃ program, Program.ofText? Sample.note = some program ∧
      ∃ declared ∈ entityStructs program.items, ∃ d read, ofStruct declared = .ok d ∧
        EntityClass.readFields declared.fields.list = .ok read ∧ d.keyField = some "id" ∧
        d.properties.map (fun p => (p.name, p.readOnly)) = [("id", true), ("text", false)] ∧
        KeySettled declared read d := by
  have hruns : (Program.ofText? Sample.note).any (fun program =>
      (entityStructs program.items).any fun declared =>
        match ofStruct declared with
        | .ok d =>
          match EntityClass.readFields declared.fields.list with
          | .ok read => decide (d.keyField = some "id" ∧
              d.properties.map (fun p => (p.name, p.readOnly)) = [("id", true), ("text", false)] ∧
              ((read.filter ClassField.isProperty).map ClassField.name).Nodup ∧
              (read.filter ClassField.isProperty).countP (·.options.id) ≤ 1)
          | .error _ => false
        | .error _ => false) = true := by
    decide +kernel
  obtain ⟨program, hsource, hprogram⟩ := (Option.any_eq_true _ _).mp hruns
  obtain ⟨declared, hdeclared, hstruct⟩ := List.any_eq_true.mp hprogram
  split at hstruct
  · rename_i d hdescribed
    split at hstruct
    · rename_i read hread
      obtain ⟨hkey, hprops, hnames, hflags⟩ := of_decide_eq_true hstruct
      exact ⟨program, hsource, declared, hdeclared, d, read, hdescribed, hread, hkey, hprops,
        key_settled hdescribed hread hnames hflags⟩
    · cases hstruct
  · cases hstruct

/-- A struct with its fields in the reverse order. -/
def reversed (declared : Struct) : Struct :=
  { declared with fields := .named (declared.fields.list.reverse.map (·, true)) }

/-- A property `id` before the key is read-only, although it is neither flagged for that nor the key, and
it is not read-only after the key. -/
theorem early_id_read_only :
    ∃ program, Program.ofText? Sample.codedNote = some program ∧
      ∃ declared ∈ entityStructs program.items, ∃ d after,
        ofStruct declared = .ok d ∧ d.keyField = some "code" ∧
        d.properties.map (fun p => (p.name, p.readOnly)) = [("id", true), ("code", true)] ∧
        ofStruct (reversed declared) = .ok after ∧ after.keyField = some "code" ∧
        after.properties.map (fun p => (p.name, p.readOnly)) = [("code", true), ("id", false)] := by
  have hruns : (Program.ofText? Sample.codedNote).any (fun program : Program => decide
      (∃ declared ∈ entityStructs program.items,
        (ofStruct declared).map (fun d => (d.keyField, d.properties.map fun p => (p.name, p.readOnly))) =
          .ok (some "code", [("id", true), ("code", true)]) ∧
        (ofStruct (reversed declared)).map
            (fun d => (d.keyField, d.properties.map fun p => (p.name, p.readOnly))) =
          .ok (some "code", [("code", true), ("id", false)]))) = true := by
    decide +kernel
  obtain ⟨program, hsource, hprogram⟩ := (Option.any_eq_true _ _).mp hruns
  obtain ⟨declared, hdeclared, hbefore, hafter⟩ := of_decide_eq_true hprogram
  obtain ⟨d, hd, hkey⟩ := map_eq_ok.mp hbefore
  obtain ⟨after, hreversed, hkeyAfter⟩ := map_eq_ok.mp hafter
  exact ⟨program, hsource, declared, hdeclared, d, after, hd, congrArg Prod.fst hkey,
    congrArg Prod.snd hkey, hreversed, congrArg Prod.fst hkeyAfter, congrArg Prod.snd hkeyAfter⟩

end Description

end Enhance

end Chronicle
