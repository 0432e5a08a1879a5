import Chronicle.Proofs.Tracking.Translation
import Mathlib.Data.List.Induction

/-!
# Change sets and their history

What a change set holds is told by the changes that were recorded since it was cleared last. At every
depth the names stand in the order in which they changed first. A plain entry stays as it is; the entry
of an embedded object stays too and only gets more parts, unless the whole object is replaced: then it
becomes a plain entry with the object before its first change, and what was known of the parts is gone.

## Implementation notes

A place in a change set is a route: the names of the embedded objects that lead to it. What changed at
the end of a route is read off the values of a change alone.
-/

namespace Chronicle

variable {w : World}

/-- What may be asked of the change set of an object. -/
inductive ChangeCall where
  | record (change : PropertyChange)
  | clear

namespace ChangeCall

/-- The change that is recorded. -/
def change? : ChangeCall → Option PropertyChange
  | .record change => some change
  | .clear => none

/-- The changes that were recorded since the last call that clears. -/
def sinceClear (calls : List ChangeCall) : List PropertyChange :=
  calls.foldl (fun changes call => call.change?.elim [] fun change => changes ++ [change]) []

end ChangeCall

/-- Whether the values before and after a change are comparable: sound, free of NaN, and objects of one
type if both are embedded objects. -/
def PropertyChange.Comparable (w : World) (change : PropertyChange) : Prop :=
  ∃ type, change.old.Comparable w type ∧ change.new.Comparable w type

namespace Value

/-- The properties at the end of a route in which the objects before and after a change differ. -/
def differing : List String → Value × Value → List String
  | [], change@(.embedded type _, .embedded ..) =>
    (type.properties.map Field.name).filter fun name =>
      !(change.1.part name).same (change.2.part name)
  | [], _ => []
  | name :: route, change => (partChange? name change).elim [] (differing route)

end Value

/-- What a change changes at the end of a route. -/
def PropertyChange.changedNames (change : PropertyChange) : List String → List String
  | [] => if change.old.same change.new then [] else [change.property]
  | name :: route =>
    if change.property = name then Value.differing route (change.old, change.new) else []

namespace ChangeSet

/-- A change set after a call. -/
def perform (set : ChangeSet) : ChangeCall → ChangeSet
  | .record change => set.record change.property change.old change.new
  | .clear => .nil

/-- The change set after calls, the first of which finds it empty. -/
def performAll (calls : List ChangeCall) : ChangeSet := calls.foldl perform .nil

/-- What changed in the embedded object at the end of a route. -/
def inside (set : ChangeSet) : List String → Option ChangeSet
  | [] => some set
  | name :: route =>
    match set.get? name with
    | some (.aggregate _ nested) => nested.inside route
    | _ => none

/-- Whether a change set goes on another one: at every route of this one there are the names that there
were, possibly with more after them, the same plain entries, and entries of the same objects. -/
def GoesOn (set next : ChangeSet) : Prop :=
  ∀ route inner, set.inside route = some inner → ∃ later, next.inside route = some later ∧
    inner.names <+: later.names ∧
    (∀ name old, inner.get? name = some (.direct old) → later.get? name = some (.direct old)) ∧
    ∀ name before nested, inner.get? name = some (.aggregate before nested) →
      ∃ more, later.get? name = some (.aggregate before more)

/-- Whether a change set is well-formed: at every depth the names are distinct, and the entry of an
embedded object holds the object before and something that changed in it. -/
structure WellFormed (set : ChangeSet) : Prop where
  distinct : ∀ {route : List String} {inner : ChangeSet}, set.inside route = some inner →
    inner.names.Nodup
  aggregate : ∀ {route : List String} {inner : ChangeSet} {name : String} {before : Value}
    {nested : ChangeSet}, set.inside route = some inner →
    inner.get? name = some (.aggregate before nested) → before.IsEmbedded ∧ nested ≠ nil

/-- Whether the names in a change set stand, at every depth, in the order of their first changes. -/
def Follows (set : ChangeSet) (changes : List PropertyChange) : Prop :=
  ∀ {route : List String} {inner : ChangeSet}, set.inside route = some inner →
    inner.names = (changes.flatMap fun change => change.changedNames route).eraseDups

/-! ## Names -/

theorem eraseDups_of_nodup {names : List String} (h : names.Nodup) : names.eraseDups = names := by
  induction names with
  | nil => rfl
  | cons name names ih =>
      obtain ⟨hname, hrest⟩ := List.nodup_cons.mp h
      have hfilter : names.filter (fun other => !other == name) = names := by
        rw [List.filter_eq_self]
        intro other hother
        have hne : other ≠ name := fun heq => hname (heq ▸ hother)
        simp [hne]
      rw [List.eraseDups_cons, hfilter, ih hrest]

/-- Names that are added after those of a history stand where they occur first in the longer one. -/
theorem eraseDups_append_of_nodup (history : List String) {more : List String} (h : more.Nodup) :
    (history ++ more).eraseDups = history.eraseDups ++ more.removeAll history.eraseDups := by
  have hfilter : more.removeAll history.eraseDups = more.removeAll history := by
    simp [List.removeAll]
  have hlater : (more.removeAll history).Nodup := h.filter _
  rw [List.eraseDups_append, hfilter, eraseDups_of_nodup hlater]

/-- Taking over another change set adds its new names after the known ones. -/
theorem names_mergeFirst_eq (set : ChangeSet) {other : ChangeSet} (h : other.names.Nodup) :
    (set.mergeFirst other).names = set.names ++ other.names.removeAll set.names := by
  have hknown : ∀ (set : ChangeSet) {name : String} (rest : List String), name ∈ set.names →
      (name :: rest).removeAll set.names = rest.removeAll set.names := by
    intro set name rest hname
    simp [List.removeAll, hname]
  have hnew : ∀ (set : ChangeSet) {name : String} {rest : List String}, name ∉ set.names →
      name ∉ rest → set.names ++ (name :: rest).removeAll set.names =
        (set.names ++ [name]) ++ rest.removeAll (set.names ++ [name]) := by
    intro set name rest hname hrest
    have hfilter : rest.removeAll (set.names ++ [name]) = rest.removeAll set.names := by
      refine List.filter_congr fun other hother => ?_
      have hne : other ≠ name := fun heq => hrest (heq ▸ hother)
      simp [hne]
    rw [hfilter]
    simp [List.removeAll, hname]
  induction other generalizing set with
  | nil => simp [mergeFirst, names, List.removeAll]
  | direct name old rest ih =>
      obtain ⟨hname, hrest⟩ := List.nodup_cons.mp h
      rw [mergeFirst, names]
      split
      · rename_i hentry
        have hmem := (set.get?_isSome_iff name).mp (hentry ▸ rfl)
        rw [ih set hrest, hknown set _ hmem]
      · rename_i hentry
        rw [ih _ hrest, names_append, hnew set ((set.get?_eq_none_iff name).mp hentry) hname]
  | aggregate name before nested rest _ ih =>
      obtain ⟨hname, hrest⟩ := List.nodup_cons.mp h
      rw [mergeFirst, names]
      split
      · rename_i hentry
        have hmem := (set.get?_isSome_iff name).mp (hentry ▸ rfl)
        rw [ih _ hrest, names_replace, hknown set _ hmem]
      · rename_i hentry
        have hmem := (set.get?_isSome_iff name).mp (hentry ▸ rfl)
        rw [ih set hrest, hknown set _ hmem]
      · rename_i hentry
        rw [ih _ hrest, names_append, hnew set ((set.get?_eq_none_iff name).mp hentry) hname]

/-- Recording adds the name of a change after all known ones, unless it is known or nothing changed. -/
theorem names_record (set : ChangeSet) {change : PropertyChange} (h : change.Comparable w) :
    (set.record change.property change.old change.new).names =
      set.names ++ (change.changedNames []).removeAll set.names := by
  obtain ⟨type, hold, hnew⟩ := h
  have hmem := mem_names_record set change.property hold.sound hnew.sound (hold.alike hnew)
    change.property
  rw [PropertyChange.changedNames]
  rcases names_note set change.property change.old change.new (between change.old change.new) with
    hnames | ⟨hfresh, hnames⟩
  · rw [record, hnames] at hmem ⊢
    split_ifs with hsame
    · simp [List.removeAll]
    · have hknown : change.property ∈ set.names :=
        hmem.mpr (Or.inr ⟨rfl, Bool.eq_false_iff.mpr hsame⟩)
      simp [List.removeAll, hknown]
  · rw [record, hnames] at hmem ⊢
    have hchanged : change.old.same change.new = false := by
      rcases hmem.mp (by simp) with hknown | ⟨-, hchanged⟩
      · exact absurd hknown hfresh
      · exact hchanged
    simp [List.removeAll, hchanged, hfresh]

theorem names_betweenFields (fields : List Field) (values : List Value) (other : String → Value)
    (known : ChangeSet) :
    ∃ later, later.Sublist ((fields.filter (·.isProperty)).map Field.name) ∧
      (betweenFields fields values other known).names = known.names ++ later := by
  induction fields generalizing values known with
  | nil => exact ⟨[], List.Sublist.refl _, by simp [betweenFields]⟩
  | cons field fields ih =>
      cases values with
      | nil => exact ⟨[], List.nil_sublist _, by simp [betweenFields]⟩
      | cons value values =>
          rw [betweenFields]
          by_cases hproperty : field.isProperty = true
          · rw [if_pos hproperty, List.filter_cons_of_pos hproperty, List.map_cons]
            obtain ⟨later, hlater, hnames⟩ := ih values
              (known.note field.name value (other field.name) (between value (other field.name)))
            rw [hnames]
            rcases names_note known field.name value (other field.name)
                (between value (other field.name)) with hnote | ⟨-, hnote⟩
            · exact ⟨later, hlater.cons _, by rw [hnote]⟩
            · exact ⟨field.name :: later, hlater.cons_cons _, by rw [hnote]; simp⟩
          · rw [if_neg hproperty, List.filter_cons_of_neg hproperty]
            exact ih values known

/-- A comparison tells the properties in which two objects differ, in the order of their declaration. -/
theorem names_between {type : FieldType} {owner : EntityType} {values others : List Value}
    (ha : Value.Comparable w type (.embedded owner values))
    (hb : Value.Comparable w type (.embedded owner others)) :
    (between (.embedded owner values) (.embedded owner others)).names =
      Value.differing [] (.embedded owner values, .embedded owner others) := by
  have hwell := ha.sound.wellNamed
  have hdistinct : (owner.properties.map Field.name).Nodup :=
    hwell.1.sublist (List.filter_sublist.map _)
  obtain ⟨later, hlater, hnames⟩ := names_betweenFields owner.fields values
    (fun name => (Value.propertyOf? owner others name).getD .null) .nil
  have hmem : ∀ name, name ∈ later ↔
      ((Value.embedded owner values).part name).same ((Value.embedded owner others).part name) =
        false := by
    intro name
    have hpart := ha.part name
    have hother := hb.part name
    rw [← List.nil_append later, ← names, ← hnames, ← between, ← get?_isSome_iff,
      get?_between_part ha hb, Entry.fresh, Entry.isSome_note_iff]
    · simp
    · exact between_ne_nil hpart.sound hother.sound (hpart.alike hother)
  have hproperty : ∀ name ∈ later, name ∈ owner.properties.map Field.name := hlater.subset
  have hsublist : later.Sublist
      (Value.differing [] (.embedded owner values, .embedded owner others)) := by
    have hfilter := hlater.filter fun name =>
      !((Value.embedded owner values).part name).same ((Value.embedded owner others).part name)
    rwa [List.filter_eq_self.mpr fun name hname => by simp [(hmem name).mp hname]] at hfilter
  rw [between, hnames, names, List.nil_append]
  refine hsublist.eq_of_length (List.Perm.length_eq ?_)
  refine (List.perm_ext_iff_of_nodup (hdistinct.sublist hlater) (hdistinct.filter _)).mpr ?_
  intro name
  rw [List.mem_filter, Bool.not_eq_true', ← hmem, iff_and_self]
  exact hproperty name

/-! ## The entry of an attribute -/

/-- What a change tells at the end of a route that begins with a property, it tells of that property. -/
theorem differing_cons (name : String) (route : List String) (changes : List (Value × Value)) :
    changes.flatMap (Value.differing (name :: route)) =
      (Value.partChanges name changes).flatMap (Value.differing route) := by
  induction changes with
  | nil => rfl
  | cons change changes ih =>
      rw [List.flatMap_cons, ih, Value.differing, Value.partChanges, Value.partChanges]
      cases hpart : Value.partChange? name change with
      | none => simp [hpart]
      | some part => simp [hpart]

theorem differing_of_flat {old new : Value} (h : ¬ (old.IsEmbedded ∧ new.IsEmbedded)) :
    Value.differing [] (old, new) = [] := by
  cases old with
  | embedded owner values =>
      cases new with
      | embedded other others => exact absurd ⟨trivial, trivial⟩ h
      | _ => rfl
  | _ => rfl

/-- Whether the values of changes are comparable, each with the other one of its change. -/
def Comparables (w : World) (changes : List (Value × Value)) : Prop :=
  ∀ change ∈ changes, ∃ type, change.1.Comparable w type ∧ change.2.Comparable w type

theorem differing_of_same {type : FieldType} {old new : Value} (ho : old.Comparable w type)
    (hn : new.Comparable w type) (hsame : old.same new = true) :
    Value.differing [] (old, new) = [] := by
  by_cases hembedded : old.IsEmbedded ∧ new.IsEmbedded
  · obtain ⟨owner, values, others, rfl, rfl⟩ := ho.embedded_of hn hembedded.1 hembedded.2
    refine List.filter_eq_nil_iff.mpr fun name _ => ?_
    simp [Value.part_same_of_same ho hn hsame name]
  · exact differing_of_flat hembedded

/-- The parts of an object that does not change do not change either. -/
theorem partChange?_same {type : FieldType} {old new : Value} (ho : old.Comparable w type)
    (hn : new.Comparable w type) (hsame : old.same new = true) {name : String}
    {part : Value × Value} (hpart : Value.partChange? name (old, new) = some part) :
    part.1.same part.2 = true := by
  by_cases hembedded : old.IsEmbedded ∧ new.IsEmbedded
  · obtain ⟨owner, values, others, rfl, rfl⟩ := ho.embedded_of hn hembedded.1 hembedded.2
    cases hpart
    exact Value.part_same_of_same ho hn hsame name
  · rw [Value.partChange?_of_flat hembedded] at hpart
    cases hpart

theorem Comparables.part {changes : List (Value × Value)} (h : Comparables w changes)
    (name : String) : Comparables w (Value.partChanges name changes) := by
  intro change hchange
  obtain ⟨⟨old, new⟩, hmem, hpart⟩ := List.mem_filterMap.mp hchange
  obtain ⟨type, ho, hn⟩ := h _ hmem
  by_cases hembedded : old.IsEmbedded ∧ new.IsEmbedded
  · obtain ⟨owner, values, others, rfl, rfl⟩ := ho.embedded_of hn hembedded.1 hembedded.2
    cases hpart
    exact ⟨Value.partType owner name, ho.part name, hn.part name⟩
  · rw [Value.partChange?_of_flat hembedded] at hpart
    cases hpart

/-- What is known of changes by an entry inside of embedded objects: nothing changed, a whole value was
replaced, or what changed in the objects is known by the names of the parts and by the entry of each. -/
inductive Entry.Knows (changes : List (Value × Value)) : Option Entry → Prop where
  | unchanged : (∀ change ∈ changes, change.1.same change.2 = true) → Knows changes none
  | replaced {old : Value} : Knows changes (some (.direct old))
  | parts {before : Value} {nested : ChangeSet} :
    nested.names = (changes.flatMap (Value.differing [])).eraseDups →
    (∀ name, nested.get? name = Entry.through none (Value.partChanges name changes)) →
    Knows changes (some (.aggregate before nested))

theorem Entry.through_concat (known : Option Entry) (changes : List (Value × Value)) (old new : Value) :
    Entry.through known (changes ++ [(old, new)]) =
      Entry.keepFirst (Entry.through known changes) (Entry.fresh old new) := by
  rw [Entry.through, List.foldl_append]
  rfl

theorem partChanges_concat (name : String) (changes : List (Value × Value))
    (change : Value × Value) :
    Value.partChanges name (changes ++ [change]) =
      Value.partChanges name changes ++ Value.partChanges name [change] :=
  List.filterMap_append

/-- What is known of unchanged objects and then of a first change of them. -/
theorem Entry.Knows.first {changes : List (Value × Value)} {old new : Value}
    (h : Comparables w (changes ++ [(old, new)]))
    (hunchanged : ∀ change ∈ changes, change.1.same change.2 = true) :
    Entry.Knows (changes ++ [(old, new)]) (Entry.fresh old new) := by
  obtain ⟨hearlier, hlast⟩ := List.forall_mem_append.mp h
  obtain ⟨type, ho, hn⟩ := hlast _ List.mem_cons_self
  by_cases hsame : old.same new = true
  · rw [Entry.fresh_of_same hsame]
    exact .unchanged (List.forall_mem_append.mpr ⟨hunchanged, by simpa using hsame⟩)
  by_cases hembedded : old.IsEmbedded ∧ new.IsEmbedded
  · rw [Entry.fresh_of_embedded hsame ho hn hembedded.1 hembedded.2]
    obtain ⟨owner, values, others, rfl, rfl⟩ := ho.embedded_of hn hembedded.1 hembedded.2
    have hnone : changes.flatMap (Value.differing []) = [] := by
      rw [List.flatMap_eq_nil_iff]
      rintro ⟨before, after⟩ hmem
      obtain ⟨_, hbefore, hafter⟩ := hearlier _ hmem
      exact differing_of_same hbefore hafter (hunchanged _ hmem)
    refine .parts ?_ fun name => ?_
    · have hnodup := (between_sound ho.sound (.embedded owner others)).nodup
      rw [List.flatMap_append, hnone, List.nil_append, List.flatMap_singleton, ← names_between ho hn,
        eraseDups_of_nodup hnodup]
    · have hparts : Entry.through none (Value.partChanges name changes) = none := by
        apply Entry.through_of_unchanged
        rw [Value.firstChange?, List.find?_eq_none]
        rintro part hpart
        obtain ⟨⟨before, after⟩, hmem, hpart⟩ := List.mem_filterMap.mp hpart
        obtain ⟨_, hbefore, hafter⟩ := hearlier _ hmem
        simp [partChange?_same hbefore hafter (hunchanged _ hmem) hpart]
      rw [partChanges_concat, get?_between_part ho hn, Entry.through, List.foldl_append]
      change _ = Entry.keepFirst (Entry.through none (Value.partChanges name changes)) _
      rw [hparts]
      rfl
  · rw [Entry.fresh_of_replaced hsame hembedded]
    exact .replaced

/-- What is known of embedded objects goes on with a further change. -/
theorem Entry.Knows.keepFirst {changes : List (Value × Value)} {old new : Value}
    (h : Comparables w (changes ++ [(old, new)])) {known : Option Entry}
    (hknown : Entry.Knows changes known) :
    Entry.Knows (changes ++ [(old, new)]) (Entry.keepFirst known (Entry.fresh old new)) := by
  obtain ⟨type, ho, hn⟩ := h _ (List.mem_append_right changes List.mem_cons_self)
  cases hknown with
  | unchanged hunchanged => exact .first h hunchanged
  | replaced => exact .replaced
  | @parts before inner hnames hparts =>
      obtain ⟨nested, hnested, hentries⟩ := Entry.keepFirst_aggregate ho hn before inner
      rw [hnested]
      refine .parts ?_ fun name => ?_
      · rw [List.flatMap_append, List.flatMap_singleton]
        by_cases hsame : old.same new = true
        · rw [Entry.fresh_of_same hsame] at hnested
          cases hnested
          rw [differing_of_same ho hn hsame, List.append_nil, hnames]
        by_cases hembedded : old.IsEmbedded ∧ new.IsEmbedded
        · rw [Entry.fresh_of_embedded hsame ho hn hembedded.1 hembedded.2] at hnested
          obtain ⟨owner, values, others, rfl, rfl⟩ := ho.embedded_of hn hembedded.1 hembedded.2
          cases hnested
          have hnodup := (between_sound ho.sound (.embedded owner others)).nodup
          rw [names_mergeFirst_eq inner hnodup, hnames, ← names_between ho hn,
            eraseDups_append_of_nodup _ hnodup]
        · rw [Entry.fresh_of_replaced hsame hembedded] at hnested
          cases hnested
          rw [differing_of_flat hembedded, List.append_nil, hnames]
      · rw [hentries, hparts, partChanges_concat, Entry.through, Entry.through, Entry.through,
          List.foldl_append]

/-- What an entry inside of embedded objects knows of all changes. -/
theorem Entry.knows_through {changes : List (Value × Value)} (h : Comparables w changes) :
    Entry.Knows changes (Entry.through none changes) := by
  induction changes using List.reverseRecOn with
  | nil => exact .unchanged (List.forall_mem_nil _)
  | append_singleton changes change ih =>
      obtain ⟨old, new⟩ := change
      have hearlier := (List.forall_mem_append.mp h).1
      rw [Entry.through_concat]
      exact (ih hearlier).keepFirst h

/-- The entry of an attribute is formed as one inside of embedded objects until a whole value is
replaced. -/
theorem Entry.along_cases {changes : List (Value × Value)} (h : Comparables w changes) :
    Entry.along none changes = Entry.through none changes ∨
      ∃ old, Entry.along none changes = some (.direct old) := by
  have hconcat : ∀ (changes : List (Value × Value)) (old new : Value),
      Entry.along none (changes ++ [(old, new)]) =
        Entry.note (Entry.along none changes) old new (between old new) := by
    intro changes old new
    rw [Entry.along, List.foldl_append]
    rfl
  induction changes using List.reverseRecOn with
  | nil => exact Or.inl rfl
  | append_singleton changes change ih =>
      obtain ⟨old, new⟩ := change
      obtain ⟨hearlier, hlast⟩ := List.forall_mem_append.mp h
      obtain ⟨type, ho, hn⟩ := hlast _ List.mem_cons_self
      rw [hconcat, Entry.through_concat]
      rcases ih hearlier with hthrough | ⟨first, hdirect⟩
      · rw [hthrough]
        by_cases hembedded : old.IsEmbedded ∧ new.IsEmbedded
        · exact Or.inl (Entry.note_eq_keepFirst _ ho hn hembedded.1 hembedded.2)
        by_cases hsame : old.same new = true
        · rw [Entry.note_of_same _ hsame, Entry.fresh_of_same hsame, Entry.keepFirst_none]
          exact Or.inl rfl
        · right
          rcases Entry.through none changes with _ | (first | ⟨before, inner⟩)
          · exact ⟨old, Entry.fresh_of_replaced hsame hembedded⟩
          · exact ⟨first, Entry.note_direct first old new _⟩
          · exact ⟨before, Entry.note_aggregate_of_flat hsame hembedded before inner _⟩
      · rw [hdirect]
        exact Or.inr ⟨first, Entry.note_direct first old new _⟩

/-- What changed in the objects of an entry stands, at every route, in the order of the first changes. -/
theorem names_inside {changes : List (Value × Value)} (h : Comparables w changes) {before : Value}
    {nested inner : ChangeSet} (hentry : Entry.through none changes = some (.aggregate before nested))
    {route : List String} (hinner : nested.inside route = some inner) :
    inner.names = (changes.flatMap (Value.differing route)).eraseDups := by
  have hknown := Entry.knows_through h
  rw [hentry] at hknown
  cases hknown with
  | parts hnames hparts =>
      induction route generalizing changes before nested with
      | nil =>
          cases hinner
          exact hnames
      | cons name route ih =>
          rw [inside] at hinner
          split at hinner
          · rename_i first more hpart
            have hthrough := (hparts name).symm.trans hpart
            have hrest := Entry.knows_through (h.part name)
            rw [hthrough] at hrest
            cases hrest with
            | parts hnames hparts =>
                rw [differing_cons]
                exact ih (h.part name) hthrough hinner hnames hparts
          · cases hinner

/-! ## Going on -/

theorem GoesOn.refl (set : ChangeSet) : set.GoesOn set := by
  intro route inner hinner
  exact ⟨inner, hinner, List.prefix_rfl, fun _ _ h => h, fun _ _ nested h => ⟨nested, h⟩⟩

theorem GoesOn.trans {first second third : ChangeSet} (h : first.GoesOn second)
    (h' : second.GoesOn third) : first.GoesOn third := by
  intro route inner hinner
  obtain ⟨middle, hmiddle, hnames, hdirect, haggregate⟩ := h route inner hinner
  obtain ⟨last, hlast, hnames', hdirect', haggregate'⟩ := h' route middle hmiddle
  refine ⟨last, hlast, hnames.trans hnames', fun name old hold => ?_,
    fun name before nested hnested => ?_⟩
  · exact hdirect' name old (hdirect name old hold)
  · obtain ⟨more, hmore⟩ := haggregate name before nested hnested
    exact haggregate' name before more hmore

theorem HasShape.inside {shape : Shape} {set inner : ChangeSet} (h : set.HasShape shape)
    {route : List String} (hinner : set.inside route = some inner) : inner.HasShape shape := by
  induction route generalizing set with
  | nil =>
      cases hinner
      exact h
  | cons name route ih =>
      rw [ChangeSet.inside] at hinner
      split at hinner
      · rename_i before nested hentry
        exact ih (h.get? hentry).2.2.2 hinner
      · cases hinner

/-- A change set that takes another one over goes on at every depth. -/
theorem goesOn_mergeFirst (set : ChangeSet) {shape : Shape} {other : ChangeSet}
    (h : other.HasShape shape) : set.GoesOn (set.mergeFirst other) := by
  intro route inner hinner
  induction route generalizing set other with
  | nil =>
      obtain rfl : set = inner := Option.some.inj hinner
      refine ⟨_, rfl, names_mergeFirst set other, fun name old hold => ?_,
        fun name before nested hnested => ?_⟩
      · rw [get?_mergeFirst set h.nodup, hold]
        rfl
      · rw [get?_mergeFirst set h.nodup, hnested]
        rcases other.get? name with _ | (old | ⟨_, more⟩)
        · exact ⟨nested, rfl⟩
        · exact ⟨nested, rfl⟩
        · exact ⟨nested.mergeFirst more, rfl⟩
  | cons name route ih =>
      rw [ChangeSet.inside] at hinner
      split at hinner
      · rename_i before nested hentry
        simp only [ChangeSet.inside, get?_mergeFirst set h.nodup, hentry]
        rcases hother : other.get? name with _ | (old | ⟨first, more⟩)
        · exact GoesOn.refl nested route inner hinner
        · exact GoesOn.refl nested route inner hinner
        · exact ih nested (h.get? hother).2.2.2 hinner
      · cases hinner

/-- The entry of an embedded object stays and goes on, unless the object is replaced. -/
theorem Entry.along_aggregate (before : Value) (nested : ChangeSet) (changes : List (Value × Value)) :
    Entry.along (some (.aggregate before nested)) changes = some (.direct before) ∨
      ∃ later, Entry.along (some (.aggregate before nested)) changes = some (.aggregate before later) ∧
        nested.GoesOn later := by
  induction changes generalizing nested with
  | nil => exact Or.inr ⟨nested, rfl, .refl nested⟩
  | cons change changes ih =>
      obtain ⟨old, new⟩ := change
      have hstep : Entry.along (some (.aggregate before nested)) ((old, new) :: changes) =
          Entry.along (Entry.note (some (.aggregate before nested)) old new (between old new))
            changes := rfl
      rw [hstep]
      by_cases hsame : old.same new = true
      · rw [Entry.note_of_same _ hsame]
        exact ih nested
      by_cases hembedded : old.IsEmbedded ∧ new.IsEmbedded
      · rw [Entry.note_aggregate_of_embedded hsame hembedded]
        have hgoes := goesOn_mergeFirst nested (lasting_recorded.between old new trivial)
        rcases ih (nested.mergeFirst (between old new)) with hdirect | ⟨later, hlater, hrest⟩
        · exact Or.inl hdirect
        · exact Or.inr ⟨later, hlater, hgoes.trans hrest⟩
      · rw [Entry.note_aggregate_of_flat hsame hembedded]
        exact Or.inl (Entry.along_direct before changes)

/-! ## Whole change sets -/

/-- The changes of an attribute among all changes. -/
def changesOf (name : String) (changes : List PropertyChange) : List (Value × Value) :=
  (changes.filter (·.property = name)).map fun change => (change.old, change.new)

theorem changesOf_append (name : String) (changes later : List PropertyChange) :
    changesOf name (changes ++ later) = changesOf name changes ++ changesOf name later := by
  rw [changesOf, List.filter_append, List.map_append]
  rfl

theorem changesOf_cons_of_eq {change : PropertyChange} {name : String}
    (h : change.property = name) (changes : List PropertyChange) :
    changesOf name (change :: changes) = (change.old, change.new) :: changesOf name changes := by
  rw [changesOf, List.filter_cons_of_pos (by simpa using h)]
  rfl

theorem changesOf_cons_of_ne {change : PropertyChange} {name : String}
    (h : change.property ≠ name) (changes : List PropertyChange) :
    changesOf name (change :: changes) = changesOf name changes := by
  rw [changesOf, List.filter_cons_of_neg (by simpa using h)]
  rfl

theorem get?_recordCalls (set : ChangeSet) (changes : List PropertyChange) (name : String) :
    (set.recordCalls changes).get? name = Entry.along (set.get? name) (changesOf name changes) := by
  induction changes generalizing set with
  | nil => rfl
  | cons change changes ih =>
      have hstep : set.recordCalls (change :: changes) =
          (set.record change.property change.old change.new).recordCalls changes := rfl
      rw [hstep, ih, record, get?_note]
      by_cases hname : change.property = name
      · rw [if_pos hname, changesOf_cons_of_eq hname]
        rfl
      · rw [if_neg hname, changesOf_cons_of_ne hname]

theorem comparables_changesOf {changes : List PropertyChange}
    (h : ∀ change ∈ changes, change.Comparable w) (name : String) :
    Comparables w (changesOf name changes) := by
  intro pair hpair
  obtain ⟨change, hchange, rfl⟩ := List.mem_map.mp hpair
  exact h change (List.mem_of_mem_filter hchange)

theorem changedNames_cons (name : String) (route : List String) (changes : List PropertyChange) :
    changes.flatMap (fun change => change.changedNames (name :: route)) =
      (changesOf name changes).flatMap (Value.differing route) := by
  induction changes with
  | nil => rfl
  | cons change changes ih =>
      rw [List.flatMap_cons, ih, PropertyChange.changedNames]
      by_cases hname : change.property = name
      · rw [if_pos hname, changesOf_cons_of_eq hname, List.flatMap_cons]
      · rw [if_neg hname, changesOf_cons_of_ne hname, List.nil_append]

theorem names_recordCalls_eq {changes : List PropertyChange}
    (h : ∀ change ∈ changes, change.Comparable w) :
    (nil.recordCalls changes).names =
      (changes.flatMap fun change => change.changedNames []).eraseDups := by
  induction changes using List.reverseRecOn with
  | nil => rfl
  | append_singleton changes change ih =>
      obtain ⟨hearlier, hlast⟩ := List.forall_mem_append.mp h
      have hstep : nil.recordCalls (changes ++ [change]) =
          (nil.recordCalls changes).record change.property change.old change.new :=
        List.foldl_append
      have hnodup : (change.changedNames []).Nodup := by
        rw [PropertyChange.changedNames]
        split_ifs <;> simp
      rw [hstep, names_record _ (hlast change List.mem_cons_self), ih hearlier, List.flatMap_append,
        List.flatMap_singleton, eraseDups_append_of_nodup _ hnodup]

/-- A change set is well-formed, whatever was recorded in it. -/
theorem wellFormed_recordCalls (changes : List PropertyChange) :
    (nil.recordCalls changes).WellFormed := by
  have hnil : nil.HasShape .recorded := trivial
  have hshape : (nil.recordCalls changes).HasShape .recorded := hnil.recordCalls changes
  constructor
  case distinct => exact fun hinner => (hshape.inside hinner).nodup
  case aggregate => exact fun hinner hentry => ((hshape.inside hinner).get? hentry).2.2.1

/-- The names in a change set follow the changes that were recorded in it. -/
theorem follows_recordCalls {changes : List PropertyChange}
    (h : ∀ change ∈ changes, change.Comparable w) : (nil.recordCalls changes).Follows changes := by
  intro route inner hinner
  cases route with
  | nil =>
      cases hinner
      exact names_recordCalls_eq h
  | cons name route =>
      rw [inside] at hinner
      split at hinner
      · rename_i before nested hentry
        have hcomparable := comparables_changesOf h name
        rw [get?_recordCalls, get?] at hentry
        rw [changedNames_cons]
        rcases Entry.along_cases hcomparable with hthrough | ⟨old, hdirect⟩
        · exact names_inside hcomparable (hthrough ▸ hentry) hinner
        · rw [hdirect] at hentry
          cases hentry
      · cases hinner

theorem performAll_eq (calls : List ChangeCall) :
    performAll calls = nil.recordCalls (ChangeCall.sinceClear calls) := by
  induction calls using List.reverseRecOn with
  | nil => rfl
  | append_singleton calls call ih =>
      rw [performAll, ChangeCall.sinceClear, List.foldl_append, List.foldl_append, ← performAll,
        ← ChangeCall.sinceClear, ih]
      cases call with
      | clear => rfl
      | record change =>
          have hsplit : ∀ changes : List PropertyChange, nil.recordCalls (changes ++ [change]) =
              (nil.recordCalls changes).perform (.record change) := fun _ => List.foldl_append
          exact (hsplit _).symm

theorem performAll_append (first : List ChangeCall) (later : List PropertyChange) :
    performAll (first ++ later.map .record) = (performAll first).recordCalls later := by
  rw [performAll, List.foldl_append, List.foldl_map]
  rfl

end ChangeSet

open ChangeSet in
/-- After any calls a change set is well-formed, and its names follow the changes that were recorded since
it was cleared last if their values are comparable. As long as it is not cleared again, no name in it is
lost and no plain entry changes. The entry of an embedded object goes on, with all that is known of its
parts, or becomes a plain entry with the object before its first change. -/
theorem change_set_represents_history (calls : List ChangeCall) :
    (performAll calls).WellFormed ∧
    ((∀ change ∈ ChangeCall.sinceClear calls, change.Comparable w) →
      (performAll calls).Follows (ChangeCall.sinceClear calls)) ∧
    ∀ (first : List ChangeCall) (later : List PropertyChange), calls = first ++ later.map .record →
      (∀ name ∈ (performAll first).names, name ∈ (performAll calls).names) ∧
      (∀ name old, (performAll first).get? name = some (.direct old) →
        (performAll calls).get? name = some (.direct old)) ∧
      ∀ name before nested, (performAll first).get? name = some (.aggregate before nested) →
        (performAll calls).get? name = some (.direct before) ∨
          ∃ more, (performAll calls).get? name = some (.aggregate before more) ∧
            nested.GoesOn more := by
  refine ⟨?_, fun h => ?_, ?_⟩
  · rw [performAll_eq]
    exact wellFormed_recordCalls _
  · rw [performAll_eq]
    exact follows_recordCalls h
  · rintro first later rfl
    rw [performAll_append]
    refine ⟨fun name hname => ?_, fun name old hold => ?_, fun name before nested hentry => ?_⟩
    · obtain ⟨added, -, hnames⟩ := names_recordCalls (performAll first) later
      rw [hnames]
      exact List.mem_append_left added hname
    · rw [get?_recordCalls, hold]
      exact Entry.along_direct old _
    · rw [get?_recordCalls, hentry]
      exact Entry.along_aggregate before nested _

namespace Sample

/-- A place gets another survey. -/
def resurveyed : PropertyChange := ⟨"place", place (survey "a"), place (survey "b")⟩

/-- A place is given up. -/
def vacated : PropertyChange := ⟨"place", place (survey "b"), .null⟩

/-- What is told of someone who gets another name, and after that grows older twice, with another survey
of the place in between. -/
def seasons : List ChangeCall :=
  [.record ⟨"name", .scalar (.text "Ann"), .scalar (.text "Eve")⟩, .clear,
    .record ⟨"age", .scalar (.int 30), .scalar (.int 31)⟩, .record resurveyed,
    .record ⟨"age", .scalar (.int 31), .scalar (.int 32)⟩]

theorem comparable_age (old new : Int64) :
    PropertyChange.Comparable world ⟨"age", .scalar (.int old), .scalar (.int new)⟩ :=
  ⟨.signed .w32, ⟨trivial, trivial, .scalar rfl⟩, ⟨trivial, trivial, .scalar rfl⟩⟩

theorem comparable_resurveyed : resurveyed.Comparable world :=
  ⟨maybe (.embedded "Geo"), comparable_place (comparable_survey "a"),
    comparable_place (comparable_survey "b")⟩

theorem comparable_vacated : vacated.Comparable world :=
  ⟨maybe (.embedded "Geo"), comparable_place (comparable_survey "b"), Value.comparable_null _⟩

end Sample

open ChangeSet Sample in
/-- After the name was cleared the age stands before the place, and keeps its first value. -/
theorem seasons_represented :
    (∀ change ∈ ChangeCall.sinceClear seasons, change.Comparable world) ∧
    (performAll seasons).names = ["age", "place"] ∧
    (∀ inner, (performAll seasons).inside ["place", "datum"] = some inner → inner.names = ["code"]) ∧
    (performAll seasons).get? "age" = some (.direct (.scalar (.int 30))) := by
  have hcomparable : ∀ change ∈ ChangeCall.sinceClear seasons, change.Comparable world := by
    intro change hchange
    change change ∈ [_, resurveyed, _] at hchange
    rcases List.mem_cons.mp hchange with rfl | hchange
    · exact comparable_age 30 31
    · rcases List.mem_cons.mp hchange with rfl | hchange
      · exact comparable_resurveyed
      · obtain rfl := List.mem_singleton.mp hchange
        exact comparable_age 31 32
  obtain ⟨-, hfollows, hlasting⟩ := change_set_represents_history (w := world) seasons
  obtain ⟨-, hdirect, -⟩ := hlasting (seasons.take 3) [resurveyed, ⟨"age", _, _⟩] rfl
  refine ⟨hcomparable, ?_, fun inner hinner => ?_, hdirect "age" _ rfl⟩
  · have hinside : (performAll seasons).inside [] = some (performAll seasons) := rfl
    refine (hfollows hcomparable hinside).trans ?_
    decide +kernel
  · refine (hfollows hcomparable hinner).trans ?_
    decide +kernel

open ChangeSet Sample in
/-- What is known of the parts of an object is lost, though nothing is cleared, when the object is given
up: inside of embedded objects names can disappear. -/
theorem parts_forgotten_with_object :
    ¬ ∀ (first : List ChangeCall) (later : List PropertyChange),
      (∀ change ∈ ChangeCall.sinceClear (first ++ later.map .record), change.Comparable world) →
      ∀ route inner name, (performAll first).inside route = some inner → name ∈ inner.names →
        ∃ more, (performAll (first ++ later.map .record)).inside route = some more ∧
          name ∈ more.names := by
  intro hkept
  have hcomparable : ∀ change ∈ ChangeCall.sinceClear [.record resurveyed, .record vacated],
      change.Comparable world := by
    change ∀ change ∈ [resurveyed, vacated], change.Comparable world
    simp [comparable_resurveyed, comparable_vacated]
  obtain ⟨more, hmore, -⟩ := hkept [.record resurveyed] [vacated] hcomparable ["place", "datum"]
    (between (survey "a") (survey "b")) "code" rfl (by decide +kernel)
  have hplace : (performAll [.record resurveyed, .record vacated]).inside ["place", "datum"] = none :=
    rfl
  exact Option.some_ne_none more (hmore.symm.trans hplace)

end Chronicle
