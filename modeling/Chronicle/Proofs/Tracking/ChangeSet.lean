import Chronicle.Proofs.Entity.Comparison

/-!
# Change sets, entry by entry

What every operation on change sets does to the entry of a single attribute, and what all of them keep:
distinct names at every depth, and whatever else is asked of names and entries and lasts.

## Implementation notes

`Entry.note` and `Entry.keepFirst` are the two ways in which an entry is formed: from a change that is
told of, and from an entry that a comparison brings. What is asked of change sets is a `Shape`, so that
the operations are followed once for all invariants; soundness is one of them.
-/

namespace Chronicle

variable {w : World}

namespace ChangeSet

/-- Whether an entry holds sound values only. -/
def Entry.Sound (w : World) : Entry → Prop
  | .direct old => old.Sound w
  | .aggregate before nested => before.Sound w ∧ nested.Sound w

/-- The entry of an attribute after a change of it is noted. -/
def Entry.note (known : Option Entry) (old new : Value) (nested : ChangeSet) : Option Entry :=
  if old.same new then known
  else
    match known, old, new with
    | none, .embedded _ _, .embedded _ _ =>
      if nested.isEmpty then none else some (.aggregate old nested)
    | none, _, _ => some (.direct old)
    | some (.direct first), _, _ => some (.direct first)
    | some (.aggregate before inner), .embedded _ _, .embedded _ _ =>
      some (.aggregate before (inner.mergeFirst nested))
    | some (.aggregate before _), _, _ => some (.direct before)

/-- The entry of an attribute after another change set is taken over. -/
def Entry.keepFirst : Option Entry → Option Entry → Option Entry
  | some (.aggregate before inner), some (.aggregate _ nested) =>
    some (.aggregate before (inner.mergeFirst nested))
  | some known, _ => some known
  | none, incoming => incoming

/-! ## Single entries -/

theorem isEmpty_iff (set : ChangeSet) : set.isEmpty = true ↔ set = nil := by
  cases set <;> simp [isEmpty]

theorem exists_mem_names {set : ChangeSet} (h : ¬ set.isEmpty = true) :
    ∃ name, name ∈ set.names := by
  cases set with
  | nil => exact absurd rfl h
  | direct name old rest => exact ⟨name, List.mem_cons_self⟩
  | aggregate name before nested rest => exact ⟨name, List.mem_cons_self⟩

theorem get?_isSome_iff (set : ChangeSet) (name : String) :
    (set.get? name).isSome ↔ name ∈ set.names := by
  induction set with
  | nil => simp [get?, names]
  | direct n old rest ih =>
      by_cases h : n = name
      · simp [get?, names, h]
      · simp [get?, names, h, ih, eq_comm (a := name)]
  | aggregate n before nested rest _ ih =>
      by_cases h : n = name
      · simp [get?, names, h]
      · simp [get?, names, h, ih, eq_comm (a := name)]

theorem get?_eq_none_iff (set : ChangeSet) (name : String) :
    set.get? name = none ↔ name ∉ set.names := by
  rw [← get?_isSome_iff, Option.not_isSome_iff_eq_none]

theorem names_append (set : ChangeSet) (attr : String) (entry : Entry) :
    (set.append attr entry).names = set.names ++ [attr] := by
  induction set with
  | nil => cases entry <;> rfl
  | direct n old rest ih => simp [append, names, ih]
  | aggregate n before nested rest _ ih => simp [append, names, ih]

theorem get?_append (set : ChangeSet) (attr : String) (entry : Entry) (name : String) :
    (set.append attr entry).get? name =
      (set.get? name).or (if attr = name then some entry else none) := by
  induction set with
  | nil => cases entry <;> rfl
  | direct n old rest ih =>
      by_cases h : n = name
      · simp [append, get?, h]
      · simp only [append, get?, if_neg h, ih]
  | aggregate n before nested rest _ ih =>
      by_cases h : n = name
      · simp [append, get?, h]
      · simp only [append, get?, if_neg h, ih]

theorem names_replace (set : ChangeSet) (attr : String) (entry : Entry) :
    (set.replace attr entry).names = set.names := by
  induction set with
  | nil => rfl
  | direct n old rest ih =>
      by_cases h : n = attr
      · cases entry <;> simp [replace, names, h]
      · simp [replace, names, h, ih]
  | aggregate n before nested rest _ ih =>
      by_cases h : n = attr
      · cases entry <;> simp [replace, names, h]
      · simp [replace, names, h, ih]

theorem get?_replace (set : ChangeSet) (attr : String) (entry : Entry) (name : String) :
    (set.replace attr entry).get? name =
      if attr = name then (set.get? name).map (fun _ => entry) else set.get? name := by
  induction set with
  | nil => simp [replace, get?]
  | direct n old rest ih =>
      by_cases hn : n = attr
      · subst hn
        by_cases h : n = name <;> cases entry <;> simp [replace, get?, h]
      · simp only [replace, if_neg hn, get?, ih]
        by_cases hname : attr = name
        · subst hname
          simp [hn]
        · simp [hname]
  | aggregate n before nested rest _ ih =>
      by_cases hn : n = attr
      · subst hn
        by_cases h : n = name <;> cases entry <;> simp [replace, get?, h]
      · simp only [replace, if_neg hn, get?, ih]
        by_cases hname : attr = name
        · subst hname
          simp [hn]
        · simp [hname]

/-! ## Taking over and noting -/

theorem Entry.keepFirst_none (known : Option Entry) : Entry.keepFirst known none = known := by
  rcases known with _ | (old | ⟨before, inner⟩) <;> rfl

theorem Entry.note_of_same (known : Option Entry) {old new : Value} (h : old.same new = true)
    (nested : ChangeSet) : Entry.note known old new nested = known := if_pos h

theorem Entry.note_direct (first old new : Value) (nested : ChangeSet) :
    Entry.note (some (.direct first)) old new nested = some (.direct first) := ite_self _

/-- The first change that replaces a whole value brings a plain entry. -/
theorem Entry.note_none_of_flat {old new : Value} (h : ¬ old.same new = true)
    (hflat : ¬ (old.IsEmbedded ∧ new.IsEmbedded)) (nested : ChangeSet) :
    Entry.note none old new nested = some (.direct old) := by
  unfold Entry.note
  rw [if_neg h]
  cases old with
  | embedded owner values =>
      cases new with
      | embedded other others => exact absurd ⟨trivial, trivial⟩ hflat
      | _ => rfl
  | _ => rfl

/-- The entry of an embedded object becomes a plain one if the object is replaced. -/
theorem Entry.note_aggregate_of_flat {old new : Value} (h : ¬ old.same new = true)
    (hflat : ¬ (old.IsEmbedded ∧ new.IsEmbedded)) (before : Value) (inner nested : ChangeSet) :
    Entry.note (some (.aggregate before inner)) old new nested = some (.direct before) := by
  unfold Entry.note
  rw [if_neg h]
  cases old with
  | embedded owner values =>
      cases new with
      | embedded other others => exact absurd ⟨trivial, trivial⟩ hflat
      | _ => rfl
  | _ => rfl

/-- An object that replaces another one brings an entry only if the two differ in a part. -/
theorem Entry.note_none_of_embedded {old new : Value} (h : ¬ old.same new = true)
    (hboth : old.IsEmbedded ∧ new.IsEmbedded) (nested : ChangeSet) :
    Entry.note none old new nested = if nested.isEmpty then none else some (.aggregate old nested) := by
  obtain ⟨owner, values, rfl⟩ := hboth.1.exists_eq
  obtain ⟨other, others, rfl⟩ := hboth.2.exists_eq
  exact if_neg h

/-- The entry of an embedded object takes over the changes of its parts. -/
theorem Entry.note_aggregate_of_embedded {old new : Value} (h : ¬ old.same new = true)
    (hboth : old.IsEmbedded ∧ new.IsEmbedded) (before : Value) (inner nested : ChangeSet) :
    Entry.note (some (.aggregate before inner)) old new nested =
      some (.aggregate before (inner.mergeFirst nested)) := by
  obtain ⟨owner, values, rfl⟩ := hboth.1.exists_eq
  obtain ⟨other, others, rfl⟩ := hboth.2.exists_eq
  exact if_neg h

/-- Taking over another change set treats every attribute by itself. -/
theorem get?_mergeFirst (set : ChangeSet) {other : ChangeSet} (h : other.names.Nodup)
    (name : String) :
    (set.mergeFirst other).get? name = Entry.keepFirst (set.get? name) (other.get? name) := by
  induction other generalizing set with
  | nil => exact (Entry.keepFirst_none _).symm
  | direct n old rest ih =>
      obtain ⟨hn, hrest⟩ := List.nodup_cons.mp h
      have hnone : rest.get? n = none := (rest.get?_eq_none_iff n).mpr hn
      by_cases hname : n = name
      · subst hname
        rw [get?, if_pos rfl]
        cases hknown : set.get? n with
        | none =>
            simp only [mergeFirst, hknown]
            rw [ih _ hrest, hnone, Entry.keepFirst_none, get?_append, hknown]
            simp [Entry.keepFirst]
        | some known =>
            simp only [mergeFirst, hknown]
            rw [ih _ hrest, hnone, Entry.keepFirst_none, hknown]
            cases known <;> rfl
      · rw [get?, if_neg hname]
        cases hknown : set.get? n with
        | none =>
            simp only [mergeFirst, hknown]
            rw [ih _ hrest, get?_append, if_neg hname, Option.or_none]
        | some known =>
            simp only [mergeFirst, hknown]
            exact ih _ hrest
  | aggregate n before nested rest _ ih =>
      obtain ⟨hn, hrest⟩ := List.nodup_cons.mp h
      have hnone : rest.get? n = none := (rest.get?_eq_none_iff n).mpr hn
      by_cases hname : n = name
      · subst hname
        rw [get?, if_pos rfl]
        rcases hknown : set.get? n with _ | (old | ⟨first, inner⟩)
        · simp only [mergeFirst, hknown]
          rw [ih _ hrest, hnone, Entry.keepFirst_none, get?_append, hknown]
          simp [Entry.keepFirst]
        · simp only [mergeFirst, hknown]
          rw [ih _ hrest, hnone, Entry.keepFirst_none, hknown]
          rfl
        · simp only [mergeFirst, hknown]
          rw [ih _ hrest, hnone, Entry.keepFirst_none, get?_replace, hknown]
          simp [Entry.keepFirst]
      · rw [get?, if_neg hname]
        rcases hknown : set.get? n with _ | (old | ⟨first, inner⟩)
        · simp only [mergeFirst, hknown]
          rw [ih _ hrest, get?_append, if_neg hname, Option.or_none]
        · simp only [mergeFirst, hknown]
          exact ih _ hrest
        · simp only [mergeFirst, hknown]
          rw [ih _ hrest, get?_replace, if_neg hname]

/-- Noting a change concerns the attribute that changed and no other. -/
theorem get?_note (set : ChangeSet) (attr : String) (old new : Value) (nested : ChangeSet)
    (name : String) :
    (set.note attr old new nested).get? name =
      if attr = name then Entry.note (set.get? name) old new nested else set.get? name := by
  by_cases hname : attr = name
  · subst hname
    rw [if_pos rfl]
    unfold note Entry.note
    by_cases hsame : old.same new = true
    · rw [if_pos hsame, if_pos hsame]
    · rw [if_neg hsame, if_neg hsame]
      rcases hknown : set.get? attr with _ | (first | ⟨before, inner⟩)
      · cases old <;> cases new <;> simp only [get?_append, hknown, Option.none_or, if_true]
        split_ifs
        · exact hknown
        · rw [get?_append, hknown, Option.none_or, if_pos rfl]
      · simp only [hknown]
      · cases old <;> cases new <;> simp [get?_replace, hknown]
  · rw [if_neg hname]
    unfold note
    by_cases hsame : old.same new = true
    · rw [if_pos hsame]
    · rw [if_neg hsame]
      split
      · split_ifs
        · rfl
        · rw [get?_append, if_neg hname, Option.or_none]
      · rw [get?_append, if_neg hname, Option.or_none]
      · rfl
      · rw [get?_replace, if_neg hname]
      · rw [get?_replace, if_neg hname]

theorem get?_betweenFields {fields : List Field} (h : (fields.map Field.name).Nodup)
    (values : List Value) (other : String → Value) (known : ChangeSet) (name : String) :
    (betweenFields fields values other known).get? name =
      match Value.propertyAt? name fields values with
      | some value =>
        Entry.note (known.get? name) value (other name) (between value (other name))
      | none => known.get? name := by
  induction fields generalizing values known with
  | nil => cases values <;> simp [betweenFields, Value.propertyAt?]
  | cons field fields ih =>
      obtain ⟨hfield, hrest⟩ := List.nodup_cons.mp h
      cases values with
      | nil => simp [betweenFields, Value.propertyAt?]
      | cons value values =>
          rw [betweenFields, ih hrest, Value.propertyAt?]
          by_cases hname : field.name = name
          · subst hname
            rw [Value.propertyAt?_eq_none values hfield, if_pos rfl]
            by_cases hproperty : field.isProperty = true
            · simp only [if_pos hproperty, get?_note, if_true]
            · simp only [if_neg hproperty]
          · rw [if_neg hname]
            by_cases hproperty : field.isProperty = true
            · simp only [if_pos hproperty, get?_note, if_neg hname]
            · simp only [if_neg hproperty]

/-- A comparison of two objects notes the change of every property by itself. -/
theorem get?_between {type other : EntityType} (h : type.WellNamed) (values others : List Value)
    (name : String) :
    (between (.embedded type values) (.embedded other others)).get? name =
      (Value.propertyOf? type values name).bind fun value =>
        Entry.note none value ((Value.propertyOf? other others name).getD .null)
          (between value ((Value.propertyOf? other others name).getD .null)) := by
  rw [between, get?_betweenFields h.1, Value.propertyOf?_eq h.1]
  cases Value.propertyAt? name type.fields values <;> rfl

/-! ## Which attributes have entries -/

theorem Entry.isSome_note_iff (known : Option Entry) {old new : Value} (nested : ChangeSet)
    (h : old.IsEmbedded → new.IsEmbedded → old.same new = false → nested ≠ nil) :
    (Entry.note known old new nested).isSome ↔ known.isSome ∨ old.same new = false := by
  unfold Entry.note
  by_cases hsame : old.same new = true
  · simp [hsame]
  · rw [if_neg hsame]
    have hchanged : old.same new = false := Bool.eq_false_iff.mpr hsame
    rcases known with _ | (first | ⟨before, inner⟩)
    · cases old <;> cases new <;> simp [hchanged]
      rw [← Bool.not_eq_true, isEmpty_iff]
      exact h trivial trivial hchanged
    · simp
    · cases old <;> cases new <;> simp

/-- The comparison of two different objects of one type is not empty. -/
theorem between_ne_nil {old new : Value} (ho : old.Sound w) (hn : new.Sound w)
    (halike : old.Alike new) (hold : old.IsEmbedded) (hnew : new.IsEmbedded)
    (hchanged : old.same new = false) : between old new ≠ nil := by
  induction old using Value.inductionOnParts generalizing new with
  | flat old hflat => exact absurd hold hflat
  | embedded type values ih =>
      cases new with
      | embedded other others =>
          have htype : type = other := halike
          subst htype
          have hdiffer : ¬ ∀ name value, Value.propertyOf? type values name = some value →
              ∃ counterpart, Value.propertyOf? type others name = some counterpart ∧
                value.same counterpart = true := by
            intro hall
            have := (Value.same_embedded_iff ho.wellNamed values others).mpr ⟨rfl, hall⟩
            rw [hchanged] at this
            cases this
          push Not at hdiffer
          obtain ⟨name, value, hvalue, hother⟩ := hdiffer
          obtain ⟨counterpart, hcounterpart, hpart⟩ := ho.2.counterpart ho.wellNamed hn.2 hvalue
          have hpartchanged : value.same counterpart = false :=
            Bool.eq_false_iff.mpr (hother counterpart hcounterpart)
          have hsome : ((between (.embedded type values) (.embedded type others)).get? name).isSome := by
            rw [get?_between ho.wellNamed, hvalue, hcounterpart, Option.bind_some, Option.getD_some,
              Entry.isSome_note_iff none]
            · exact Or.inr hpartchanged
            · intro hv hc hch
              exact ih value (Value.mem_of_propertyOf? ho.wellNamed hvalue)
                (ho.2.propertyOf? hvalue) (hn.2.propertyOf? hcounterpart) hpart hv hc hch
          intro hnil
          rw [hnil] at hsome
          cases hsome
      | _ => exact absurd hnew id

/-- A recorded change gives its attribute an entry exactly if it is one. -/
theorem mem_names_record (set : ChangeSet) (attr : String) {old new : Value} (ho : old.Sound w)
    (hn : new.Sound w) (halike : old.Alike new) (name : String) :
    name ∈ (set.record attr old new).names ↔
      name ∈ set.names ∨ (attr = name ∧ old.same new = false) := by
  rw [← get?_isSome_iff, ← get?_isSome_iff, record, get?_note]
  by_cases hname : attr = name
  · rw [if_pos hname, Entry.isSome_note_iff _ _ (between_ne_nil ho hn halike)]
    simp [hname]
  · simp [hname]

/-! ## What operations keep -/

/-- What is asked of change sets beyond distinct names: of the names, of the old values, and of what
changed in an embedded object together with the object. -/
structure Shape where
  name : String → Prop
  old : Value → Prop
  changed : Value → ChangeSet → Prop

/-- Whether the entries of every depth have distinct names and are as a shape asks. -/
def HasShape (shape : Shape) : ChangeSet → Prop
  | .nil => True
  | .direct name old rest =>
    shape.name name ∧ name ∉ rest.names ∧ shape.old old ∧ rest.HasShape shape
  | .aggregate name before nested rest =>
    shape.name name ∧ name ∉ rest.names ∧
      (shape.old before ∧ shape.changed before nested ∧ nested.HasShape shape) ∧ rest.HasShape shape

/-- Whether an entry is as a shape asks. -/
def Entry.HasShape (shape : Shape) : Entry → Prop
  | .direct old => shape.old old
  | .aggregate before nested =>
    shape.old before ∧ shape.changed before nested ∧ nested.HasShape shape

/-- Whether a shape lasts while changes are recorded: it asks of the parts of an object what it asks of
the object, and it lets any change of an embedded object be told and more be added. -/
structure Shape.Lasting (shape : Shape) : Prop where
  fieldName : ∀ {type : EntityType} {values : List Value}, shape.old (.embedded type values) →
    ∀ name ∈ type.fields.map Field.name, shape.name name
  part : ∀ {type : EntityType} {values : List Value}, shape.old (.embedded type values) →
    ∀ value ∈ values, shape.old value
  fresh : ∀ {before : Value} {nested : ChangeSet}, before.IsEmbedded → nested ≠ nil →
    shape.changed before nested
  grown : ∀ {before : Value} {inner : ChangeSet}, shape.changed before inner → ∀ nested,
    shape.changed before (inner.mergeFirst nested)

section Shapes

variable {shape : Shape}

/-- The shape of a change set is told by the names and by the entry of each. -/
theorem hasShape_iff (set : ChangeSet) :
    set.HasShape shape ↔
      set.names.Nodup ∧
        ∀ name entry, set.get? name = some entry → shape.name name ∧ entry.HasShape shape := by
  have hlater : ∀ {rest : ChangeSet} {n name : String} {entry : Entry}, n ∉ rest.names →
      rest.get? name = some entry → n ≠ name := by
    rintro rest n name entry hn hentry rfl
    rw [(get?_eq_none_iff rest n).mpr hn] at hentry
    cases hentry
  induction set with
  | nil => simp [HasShape, names, get?]
  | direct n old rest ih =>
      constructor
      · rintro ⟨hname, hn, hold, hrest⟩
        obtain ⟨hnodup, hentries⟩ := ih.mp hrest
        refine ⟨List.nodup_cons.mpr ⟨hn, hnodup⟩, fun name entry hentry => ?_⟩
        rw [get?] at hentry
        split_ifs at hentry with heq
        · cases hentry
          exact ⟨heq ▸ hname, hold⟩
        · exact hentries name entry hentry
      · rintro ⟨hnodup, hentries⟩
        obtain ⟨hn, hrest⟩ := List.nodup_cons.mp hnodup
        obtain ⟨hname, hold⟩ := hentries n (.direct old) (by rw [get?, if_pos rfl])
        refine ⟨hname, hn, hold, ih.mpr ⟨hrest, fun name entry hentry => ?_⟩⟩
        apply hentries name entry
        rw [get?, if_neg (hlater hn hentry), hentry]
  | aggregate n before nested rest _ ih =>
      constructor
      · rintro ⟨hname, hn, hinner, hrest⟩
        obtain ⟨hnodup, hentries⟩ := ih.mp hrest
        refine ⟨List.nodup_cons.mpr ⟨hn, hnodup⟩, fun name entry hentry => ?_⟩
        rw [get?] at hentry
        split_ifs at hentry with heq
        · cases hentry
          exact ⟨heq ▸ hname, hinner⟩
        · exact hentries name entry hentry
      · rintro ⟨hnodup, hentries⟩
        obtain ⟨hn, hrest⟩ := List.nodup_cons.mp hnodup
        obtain ⟨hname, hinner⟩ := hentries n (.aggregate before nested) (by rw [get?, if_pos rfl])
        refine ⟨hname, hn, hinner, ih.mpr ⟨hrest, fun name entry hentry => ?_⟩⟩
        apply hentries name entry
        rw [get?, if_neg (hlater hn hentry), hentry]

theorem HasShape.nodup {set : ChangeSet} (h : set.HasShape shape) : set.names.Nodup :=
  (set.hasShape_iff.mp h).1

theorem HasShape.get? {set : ChangeSet} {name : String} {entry : Entry} (h : set.HasShape shape)
    (hentry : set.get? name = some entry) : shape.name name ∧ entry.HasShape shape :=
  (set.hasShape_iff.mp h).2 name entry hentry

theorem HasShape.append {set : ChangeSet} {attr : String} {entry : Entry} (h : set.HasShape shape)
    (hattr : shape.name attr) (hnew : set.get? attr = none) (hentry : entry.HasShape shape) :
    (set.append attr entry).HasShape shape := by
  refine (hasShape_iff _).mpr ⟨?_, fun name other hother => ?_⟩
  · rw [names_append, ← List.concat_eq_append]
    exact h.nodup.concat ((set.get?_eq_none_iff attr).mp hnew)
  · rw [get?_append, Option.or_eq_some_iff] at hother
    rcases hother with hother | ⟨-, hother⟩
    · exact h.get? hother
    · split_ifs at hother with heq
      cases hother
      exact ⟨heq ▸ hattr, hentry⟩

theorem HasShape.replace {set : ChangeSet} {attr : String} {entry : Entry} (h : set.HasShape shape)
    (hentry : entry.HasShape shape) : (set.replace attr entry).HasShape shape := by
  refine (hasShape_iff _).mpr ⟨?_, fun name other hother => ?_⟩
  · rw [names_replace]
    exact h.nodup
  · rw [get?_replace] at hother
    split_ifs at hother
    · obtain ⟨known, hknown, rfl⟩ := Option.map_eq_some_iff.mp hother
      exact ⟨(h.get? hknown).1, hentry⟩
    · exact h.get? hother

theorem HasShape.mergeFirst {set other : ChangeSet} (h : set.HasShape shape)
    (ho : other.HasShape shape) (hshape : shape.Lasting) :
    (set.mergeFirst other).HasShape shape := by
  induction other generalizing set with
  | nil => exact h
  | direct n old rest ih =>
      obtain ⟨hn, -, hold, hrest⟩ := ho
      rw [ChangeSet.mergeFirst]
      split
      · exact ih h hrest
      · rename_i hknown
        exact ih (h.append hn hknown hold) hrest
  | aggregate n before nested rest ihn ihr =>
      obtain ⟨hn, -, hentry, hrest⟩ := ho
      rw [ChangeSet.mergeFirst]
      split
      · rename_i hknown
        obtain ⟨-, hfirst, hchanged, hinner⟩ := h.get? hknown
        exact ihr (h.replace ⟨hfirst, hshape.grown hchanged nested, ihn hinner hentry.2.2⟩) hrest
      · exact ihr h hrest
      · rename_i hknown
        exact ihr (h.append hn hknown hentry) hrest

theorem HasShape.note {set nested : ChangeSet} {attr : String} {old : Value} (h : set.HasShape shape)
    (hshape : shape.Lasting) (hattr : shape.name attr) (hold : shape.old old)
    (hnested : nested.HasShape shape) (new : Value) :
    (set.note attr old new nested).HasShape shape := by
  unfold ChangeSet.note
  by_cases hsame : old.same new = true
  · rw [if_pos hsame]
    exact h
  · rw [if_neg hsame]
    split
    · rename_i hknown
      split_ifs with hempty
      · exact h
      · have hne : nested ≠ nil := mt nested.isEmpty_iff.mpr hempty
        exact h.append hattr hknown ⟨hold, hshape.fresh trivial hne, hnested⟩
    · rename_i hknown _
      exact h.append hattr hknown hold
    · exact h
    · rename_i hknown
      obtain ⟨-, hbefore, hchanged, hinner⟩ := h.get? hknown
      apply h.replace
      exact ⟨hbefore, hshape.grown hchanged nested, hinner.mergeFirst hnested hshape⟩
    · rename_i hknown _
      exact h.replace (h.get? hknown).2.1

mutual

theorem Shape.Lasting.between (hshape : shape.Lasting) : ∀ old new : Value, shape.old old →
    (ChangeSet.between old new).HasShape shape
  | .embedded type values, .embedded other others, hold => by
    rw [ChangeSet.between]
    exact hshape.betweenFields type.fields values _ .nil (hshape.fieldName hold) (hshape.part hold)
      trivial
  | .null, _, _ => trivial
  | .scalar _, _, _ => trivial
  | .reference _, _, _ => trivial
  | .collection .., _, _ => trivial
  | .embedded .., .null, _ => trivial
  | .embedded .., .scalar _, _ => trivial
  | .embedded .., .reference _, _ => trivial
  | .embedded .., .collection .., _ => trivial

theorem Shape.Lasting.betweenFields (hshape : shape.Lasting) : ∀ (fields : List Field)
    (values : List Value) (other : String → Value) (known : ChangeSet),
    (∀ name ∈ fields.map Field.name, shape.name name) → (∀ value ∈ values, shape.old value) →
    known.HasShape shape → (ChangeSet.betweenFields fields values other known).HasShape shape
  | [], values, _, _, _, _, hknown => by
    rw [ChangeSet.betweenFields]
    · exact hknown
    · simp
  | _ :: _, [], _, _, _, _, hknown => by
    rw [ChangeSet.betweenFields]
    · exact hknown
    · simp
  | field :: fields, value :: values, other, known, hnames, hvalues, hknown => by
    rw [List.map_cons, List.forall_mem_cons] at hnames
    rw [List.forall_mem_cons] at hvalues
    rw [ChangeSet.betweenFields]
    apply hshape.betweenFields fields values other _ hnames.2 hvalues.2
    split_ifs
    · have hbetween := hshape.between value (other field.name) hvalues.1
      exact hknown.note hshape hnames.1 hvalues.1 hbetween _
    · exact hknown

end

/-- A change set keeps its shape while changes are recorded. -/
theorem HasShape.record {set : ChangeSet} {attr : String} {old : Value} (h : set.HasShape shape)
    (hshape : shape.Lasting) (hattr : shape.name attr) (hold : shape.old old) (new : Value) :
    (set.record attr old new).HasShape shape :=
  h.note hshape hattr hold (hshape.between old new hold) new

end Shapes

/-! ## Sound change sets -/

/-- The shape of sound change sets. -/
def Shape.sound (w : World) : Shape := ⟨Dotless, Value.Sound w, fun _ _ => True⟩

theorem lasting_sound : (Shape.sound w).Lasting where
  fieldName h := Value.Sound.wellNamed h |>.2
  part h _ hvalue := h.2.of_mem hvalue
  fresh _ _ := trivial
  grown _ _ := trivial

theorem sound_iff (set : ChangeSet) : set.Sound w ↔ set.HasShape (Shape.sound w) := by
  induction set with
  | nil => exact Iff.rfl
  | direct n old rest ih => simp only [Sound, HasShape, ih, Shape.sound]
  | aggregate n before nested rest ihn ihr =>
      simp only [Sound, HasShape, ihn, ihr, Shape.sound, true_and, and_assoc]

theorem Sound.nodup {set : ChangeSet} (h : set.Sound w) : set.names.Nodup :=
  (set.sound_iff.mp h).nodup

theorem between_sound {old : Value} (hold : old.Sound w) (new : Value) : (between old new).Sound w :=
  (sound_iff _).mpr (lasting_sound.between old new hold)

/-- A change set stays sound while sound changes are recorded. -/
theorem Sound.record {set : ChangeSet} {attr : String} {old : Value} (h : set.Sound w)
    (hattr : Dotless attr) (hold : old.Sound w) (new : Value) : (set.record attr old new).Sound w :=
  (sound_iff _).mpr ((set.sound_iff.mp h).record lasting_sound hattr hold new)

theorem Sound.recording {set : ChangeSet} (h : set.Sound w) : set.recording.Sound w := by
  induction set with
  | nil => trivial
  | direct n old rest ih => exact ⟨h.1, h.2.2.1, ih h.2.2.2⟩
  | aggregate n before nested rest ihn ihr => exact ⟨h.1, ihn h.2.2.2.1, ihr h.2.2.2.2⟩

theorem names_recording (set : ChangeSet) : set.recording.names = set.names := by
  induction set with
  | nil => rfl
  | direct n old rest ih => simp [ChangeSet.recording, Recording.names, names, ih]
  | aggregate n before nested rest _ ih =>
      simp [ChangeSet.recording, Recording.names, names, ih]

end ChangeSet

end Chronicle
