import Chronicle.Proofs.Enhance.Setters
import Chronicle.Proofs.Sample.Sources
import Mathlib.Data.List.Induction

/-!
# Which getter reads a field

The methods of a class are taken into account one after another, each for one field at most. What is
found for a field in the end depends on the names of the getters and not on their order: the method with
the field's own name, or else the one with the getters' beginning before that name.

There is one exception. The own name of a field can be the getters' beginning with the name of another
field. Then a method of that name is taken into account for the other field only, and the field is read
as if there were no such method.
-/

namespace Chronicle

namespace Enhance

open Source

variable {naming : Naming} {c : EntityClass} {methods : List Method} {field : String}

/-! ## The rule -/

/-- Whether a method with a given name borrows its object, takes nothing else and declares a result. -/
def HasGetter (methods : List Method) (name : String) : Prop :=
  ∃ m ∈ methods, m.name = name ∧ (∃ attributes own, m.arguments = [.receiver attributes own true false]) ∧
    m.signature.result ≠ []

/-- The first of two names, if something holds for it, or else the second one, if something else holds for
that. -/
inductive Preferred (fitsFirst fitsSecond : Prop) (first second : String) : Option String → Prop
  | first (h : fitsFirst) : Preferred fitsFirst fitsSecond first second (some first)
  | second (hfirst : ¬fitsFirst) (h : fitsSecond) :
      Preferred fitsFirst fitsSecond first second (some second)
  | neither (hfirst : ¬fitsFirst) (hsecond : ¬fitsSecond) :
      Preferred fitsFirst fitsSecond first second none

/-- The getter that reads a field: the one with the field's own name, or else the one with the getters'
beginning before it. -/
def ReadBy (naming : Naming) (methods : List Method) (field : String) : Option String → Prop :=
  Preferred (HasGetter methods field) (HasGetter methods (naming.getterPrefix ++ field)) field
    (naming.getterPrefix ++ field)

/-- Whether the own name of a field is that of a getter of another field. -/
def NameTaken (naming : Naming) (c : EntityClass) (field : String) : Prop :=
  naming.getterPrefix ≠ "" ∧
    ∃ other, (c.field? other).isSome = true ∧ field = naming.getterPrefix ++ other

/-- Whether no getter of a field is among methods: none with the getters' beginning before the field's
name, and one with the field's own name only if it is taken for another field. -/
structure Unread (naming : Naming) (c : EntityClass) (methods : List Method) (field : String) : Prop where
  beginning : ¬HasGetter methods (naming.getterPrefix ++ field)
  own : HasGetter methods field → NameTaken naming c field

/-- The getter that is found for a field among methods. -/
def getterOf? (naming : Naming) (c : EntityClass) (methods : List Method) (field : String) :
    Option String :=
  (gettersOf naming c methods).lookup field

theorem hasGetter_iff {name : String} :
    HasGetter methods name ↔ ∃ m ∈ methods, m.name = name ∧ isGetter m = true := by
  simp only [HasGetter, isGetter_iff]

instance (methods : List Method) (name : String) : Decidable (HasGetter methods name) :=
  decidable_of_iff _ hasGetter_iff.symm

theorem hasGetter_append_singleton {m : Method} {name : String} :
    HasGetter (methods ++ [m]) name ↔ HasGetter methods name ∨ m.name = name ∧ isGetter m = true := by
  simp only [hasGetter_iff, List.mem_append, List.mem_singleton, or_and_right, exists_or,
    exists_eq_left]

theorem HasGetter.perm {others : List Method} {name : String} (h : HasGetter methods name)
    (hperm : methods.Perm others) : HasGetter others name := by
  obtain ⟨m, hmem, hgetter⟩ := h
  exact ⟨m, hperm.mem_iff.mp hmem, hgetter⟩

theorem Preferred.unique {fitsFirst fitsSecond : Prop} {first second : String}
    {found other : Option String} (h : Preferred fitsFirst fitsSecond first second found)
    (hother : Preferred fitsFirst fitsSecond first second other) : found = other := by
  cases h <;> cases hother <;> first | rfl | contradiction

/-! ## One more method -/

theorem lookup_filter (getters : Getters) (name : String) :
    (getters.filter (·.1 ≠ name)).lookup field = if field = name then none else getters.lookup field := by
  induction getters with
  | nil => exact (ite_self _).symm
  | cons entry getters ih =>
      obtain ⟨key, getter⟩ := entry
      by_cases hkey : key = name
      · subst hkey
        rw [List.filter_cons_of_neg (by simp), ih, List.lookup_cons]
        by_cases hfield : field = key
        · simp [hfield]
        · simp [hfield, beq_eq_false_iff_ne.mpr hfield]
      · rw [List.filter_cons_of_pos (by simpa using hkey), List.lookup_cons, List.lookup_cons, ih]
        by_cases hfield : field = key
        · simp [hfield, hkey]
        · simp [beq_eq_false_iff_ne.mpr hfield]

/-- A getter whose name begins as that of a getter of the field does is taken into account for it unless
there is one already. -/
theorem lookup_addGetter_beginning {m : Method} (getters : Getters)
    (hdeclared : (c.field? field).isSome = true) (hgetter : isGetter m = true)
    (hname : m.name = naming.getterPrefix ++ field) :
    (addGetter naming c getters m).lookup field = (getters.lookup field).or (some m.name) := by
  have hstripped : (stripPrefix? m.name naming.getterPrefix).filter
      (fun field => (c.field? field).isSome) = some field :=
    Option.filter_eq_some_iff.mpr ⟨stripPrefix?_eq_some_iff.mpr hname, hdeclared⟩
  rw [addGetter, if_pos hgetter]
  simp only [hstripped]
  cases hlookup : getters.lookup field with
  | some getter => simp [hlookup]
  | none => simp [List.lookup_append, hlookup]

/-- A getter with the field's own name replaces others, unless it is one of another field. -/
theorem lookup_addGetter_own {m : Method} (getters : Getters)
    (hdeclared : (c.field? field).isSome = true) (hgetter : isGetter m = true) (hname : m.name = field)
    (hbeginning : naming.getterPrefix ≠ "") (hfree : ¬NameTaken naming c field) :
    (addGetter naming c getters m).lookup field = some field := by
  have hstripped : (stripPrefix? m.name naming.getterPrefix).filter
      (fun field => (c.field? field).isSome) = none := by
    rw [Option.filter_eq_none_iff]
    intro other hother hread
    exact hfree ⟨hbeginning, other, hread, hname ▸ stripPrefix?_eq_some_iff.mp hother⟩
  subst hname
  rw [addGetter, if_pos hgetter]
  simp only [hstripped, hdeclared, if_true]
  rw [List.lookup_append, lookup_filter, if_pos rfl]
  simp

/-- Any other method changes nothing about the field. -/
theorem lookup_addGetter_other {m : Method} (getters : Getters)
    (hbeginning : isGetter m = true → m.name ≠ naming.getterPrefix ++ field)
    (hown : isGetter m = true → m.name = field → NameTaken naming c field) :
    (addGetter naming c getters m).lookup field = getters.lookup field := by
  rw [addGetter]
  split
  · rename_i hgetter
    cases hstripped : (stripPrefix? m.name naming.getterPrefix).filter
        fun field => (c.field? field).isSome with
    | some other =>
        have hname : m.name = naming.getterPrefix ++ other :=
          stripPrefix?_eq_some_iff.mp (Option.filter_eq_some_iff.mp hstripped).1
        have hne : field ≠ other := by
          rintro rfl
          exact hbeginning hgetter hname
        simp only
        split
        · rfl
        · simp [List.lookup_append, hne]
    | none =>
        have hne : field ≠ m.name := by
          intro heq
          obtain ⟨-, other, hother, hfield⟩ := hown hgetter heq.symm
          rw [Option.filter_eq_none_iff] at hstripped
          exact hstripped other (stripPrefix?_eq_some_iff.mpr (heq ▸ hfield)) hother
        simp only
        split
        · rw [List.lookup_append, lookup_filter, if_neg hne]
          simp [hne]
        · rfl
  · rfl

/-! ## All methods -/

/-- One more getter whose name begins as those of getters do is the last choice for its field. Without a
beginning the two names of getters are one, so that the method may bear the field's own name. -/
theorem Preferred.beginning {m : Method} {free : Prop} {second : String} {found : Option String}
    (hgetter : isGetter m = true) (hname : m.name = second)
    (h : Preferred (HasGetter methods field ∧ free) (HasGetter methods second) field second found) :
    Preferred (HasGetter (methods ++ [m]) field ∧ free) (HasGetter (methods ++ [m]) second) field second
      (found.or (some m.name)) := by
  have hsecond : HasGetter (methods ++ [m]) second :=
    hasGetter_append_singleton.mpr (.inr ⟨hname, hgetter⟩)
  have hlast : ¬(HasGetter methods field ∧ free) →
      Preferred (HasGetter (methods ++ [m]) field ∧ free) (HasGetter (methods ++ [m]) second) field second
        (some m.name) := by
    intro hnone
    by_cases hown : HasGetter (methods ++ [m]) field ∧ free
    · rcases hasGetter_append_singleton.mp hown.1 with hbefore | ⟨hsame, -⟩
      · exact absurd ⟨hbefore, hown.2⟩ hnone
      · rw [hsame]
        exact .first hown
    · rw [hname]
      exact .second hown hsecond
  cases h with
  | first h => exact .first ⟨hasGetter_append_singleton.mpr (.inl h.1), h.2⟩
  | second hnone _ => exact hname ▸ hlast hnone
  | neither hnone _ => exact hlast hnone

/-- What is found for a field, by the names of the getters. -/
theorem getterOf?_preferred (naming : Naming) (methods : List Method)
    (hdeclared : (c.field? field).isSome = true) :
    Preferred (HasGetter methods field ∧ ¬NameTaken naming c field)
      (HasGetter methods (naming.getterPrefix ++ field)) field (naming.getterPrefix ++ field)
      (getterOf? naming c methods field) := by
  -- Methods are taken into account from the front, so that the last one is a single step.
  induction methods using List.reverseRecOn with
  | nil => exact .neither (by simp [hasGetter_iff]) (by simp [hasGetter_iff])
  | append_singleton methods m ih =>
      have hstep : getterOf? naming c (methods ++ [m]) field =
          (addGetter naming c (gettersOf naming c methods) m).lookup field := by
        rw [getterOf?, gettersOf, List.foldl_append]
        rfl
      rw [hstep]
      by_cases hbeginning : isGetter m = true ∧ m.name = naming.getterPrefix ++ field
      · rw [lookup_addGetter_beginning _ hdeclared hbeginning.1 hbeginning.2]
        exact ih.beginning hbeginning.1 hbeginning.2
      · by_cases hown : isGetter m = true ∧ m.name = field ∧ ¬NameTaken naming c field
        · obtain ⟨hgetter, hname, hfree⟩ := hown
          have hprefix : naming.getterPrefix ≠ "" := by
            intro hempty
            exact hbeginning ⟨hgetter, by rw [hname, hempty, String.empty_append]⟩
          rw [lookup_addGetter_own _ hdeclared hgetter hname hprefix hfree]
          exact .first ⟨hasGetter_append_singleton.mpr (.inr ⟨hname, hgetter⟩), hfree⟩
        · have hfirst : (HasGetter (methods ++ [m]) field ∧ ¬NameTaken naming c field) =
              (HasGetter methods field ∧ ¬NameTaken naming c field) := by
            rw [hasGetter_append_singleton]
            grind
          have hsecond : HasGetter (methods ++ [m]) (naming.getterPrefix ++ field) =
              HasGetter methods (naming.getterPrefix ++ field) := by
            rw [hasGetter_append_singleton]
            grind
          rw [lookup_addGetter_other _ (by grind) (by grind), hfirst, hsecond]
          exact ih

theorem getterOf?_eq_none_iff (hdeclared : (c.field? field).isSome = true) :
    getterOf? naming c methods field = none ↔ Unread naming c methods field := by
  have hfound := getterOf?_preferred naming methods hdeclared
  constructor
  · intro hnone
    rw [hnone] at hfound
    cases hfound with
    | neither hown hbeginning =>
        exact ⟨hbeginning, fun h => not_not.mp fun hfree => hown ⟨h, hfree⟩⟩
  · intro h
    exact hfound.unique (.neither (fun hown => hown.2 (h.own hown.1)) h.beginning)

/-- The order of methods does not matter. -/
theorem getterOf?_perm {others : List Method} (hperm : methods.Perm others)
    (hdeclared : (c.field? field).isSome = true) :
    getterOf? naming c methods field = getterOf? naming c others field := by
  have hnames : ∀ name, HasGetter others name = HasGetter methods name := by
    intro name
    exact propext ⟨fun h => h.perm hperm.symm, fun h => h.perm hperm⟩
  have hothers := getterOf?_preferred naming others hdeclared
  rw [hnames, hnames] at hothers
  exact (getterOf?_preferred naming methods hdeclared).unique hothers

/-- A field is read as the rule says, unless a method has its own name and that name is taken. -/
theorem readBy_getterOf?_iff (hdeclared : (c.field? field).isSome = true) :
    ReadBy naming methods field (getterOf? naming c methods field) ↔
      ¬(HasGetter methods field ∧ NameTaken naming c field) := by
  have hfound := getterOf?_preferred naming methods hdeclared
  constructor
  · rintro hrule ⟨hown, htaken⟩
    have hsome : getterOf? naming c methods field = some field :=
      hrule.unique (.first hown)
    have hne : naming.getterPrefix ++ field ≠ field := by
      rw [ne_eq, String.append_eq_right_iff]
      exact htaken.1
    rw [hsome] at hfound
    generalize hfield : some field = found at hfound
    cases hfound with
    | first h => exact h.2 htaken
    | second _ _ => exact hne (Option.some.inj hfield).symm
    | neither _ _ => cases hfield
  · intro hfree
    have hfirst : (HasGetter methods field ∧ ¬NameTaken naming c field) = HasGetter methods field :=
      propext ⟨And.left, fun hown => ⟨hown, fun htaken => hfree ⟨hown, htaken⟩⟩⟩
    rwa [hfirst] at hfound

/-- A field with its own name taken is read as if no method had that name. -/
theorem getterOf?_of_taken (hdeclared : (c.field? field).isSome = true)
    (htaken : NameTaken naming c field) :
    getterOf? naming c methods field =
      if HasGetter methods (naming.getterPrefix ++ field) then some (naming.getterPrefix ++ field)
      else none := by
  have hfirst : ¬(HasGetter methods field ∧ ¬NameTaken naming c field) := fun h => h.2 htaken
  apply (getterOf?_preferred naming methods hdeclared).unique
  split
  · exact .second hfirst ‹_›
  · exact .neither hfirst ‹_›

/-! ## The setters of a class -/

/-- Whether a method of a class can be wrapped if it has to be: no primitive type is touched, and a getter
is found. -/
def Wrappable (naming : Naming) (c : EntityClass) (methods : List Method) (m : Method) : Prop :=
  ∀ field, TrackedSetter naming c m field → (∀ type, ¬TouchesPrimitive m field type) ∧
    ∃ getter, getterOf? naming c methods field.name = some getter

theorem TrackedSetter.declares {m : Method} {field : ClassField} (h : TrackedSetter naming c m field) :
    (c.field? field.name).isSome = true := by
  rw [h.declared]
  rfl

theorem judge_of_rewritable {m : Method} {field : ClassField} (h : TrackedSetter naming c m field)
    (hprimitive : ∀ type, ¬TouchesPrimitive m field type) :
    judge naming c (gettersOf naming c methods) m =
      match getterOf? naming c methods field.name with
      | some getter => .wrap field.name getter
      | none => .fail (.missingGetter c.displayName field.name) := by
  rw [judge_of_tracked _ h, primitiveOf?_eq_none_iff.mpr hprimitive]
  rfl

theorem Wrappable.judge_ne {m : Method} (h : Wrappable naming c methods m) (error : EnhanceError) :
    judge naming c (gettersOf naming c methods) m ≠ .fail error := by
  by_cases htracked : ∃ field, TrackedSetter naming c m field
  · obtain ⟨field, hfield⟩ := htracked
    obtain ⟨hprimitive, getter, hgetter⟩ := h field hfield
    rw [judge_of_rewritable hfield hprimitive, hgetter]
    simp
  · rcases judge_of_not_tracked (gettersOf naming c methods) (not_exists.mp htracked) with
      hkeep | ⟨name, huntracked⟩
    · simp [hkeep]
    · simp [huntracked]

/-- A method that cannot be wrapped ends the run, with an error about it if it is the first one. -/
theorem firstError?_of_fail {items : List Item} {front back : List Method} {m : Method}
    {error : EnhanceError} (hsplit : ownMethods c.name items = front ++ m :: back)
    (hjudge : judge naming c (gettersOf naming c (ownMethods c.name items)) m = .fail error) :
    (∃ first, firstError? (verdictsAmong naming items c) = some first) ∧
      ((∀ earlier ∈ front, Wrappable naming c (ownMethods c.name items) earlier) →
        firstError? (verdictsAmong naming items c) = some error) := by
  let verdict := judge naming c (gettersOf naming c (ownMethods c.name items))
  have hverdicts : verdictsAmong naming items c =
      front.map verdict ++ .fail error :: back.map verdict := by
    rw [← hjudge, ← List.map_cons, ← List.map_append, ← hsplit]
    rfl
  have hsome : firstError? (verdictsAmong naming items c) =
      (firstError? (front.map verdict)).or (some error) := by
    rw [hverdicts, firstError?, List.findSome?_append]
    rfl
  rw [hsome]
  constructor
  · cases firstError? (front.map verdict) <;> simp
  · intro hfront
    have hnone : firstError? (front.map verdict) = none := by
      rw [firstError?_eq_none_iff]
      intro first hmem
      obtain ⟨earlier, hearlier, hfails⟩ := List.mem_map.mp hmem
      exact (hfront earlier hearlier).judge_ne first hfails
    rw [hnone]
    rfl

/-- How the getters of a class without the mark are found among its methods, and what becomes of the
setters that need them. -/
structure GettersResolved (naming : Naming) (c : EntityClass) (items : List Item) : Prop where
  /-- The rule holds for a field, unless a method has the field's own name and that name is taken. -/
  rule : ∀ field, (c.field? field).isSome = true →
    (ReadBy naming (ownMethods c.name items) field
        (getterOf? naming c (ownMethods c.name items) field) ↔
      ¬(HasGetter (ownMethods c.name items) field ∧ NameTaken naming c field))
  /-- Where the name is taken only the getters' beginning before it counts. -/
  taken : ∀ field, (c.field? field).isSome = true → NameTaken naming c field →
    getterOf? naming c (ownMethods c.name items) field =
      if HasGetter (ownMethods c.name items) (naming.getterPrefix ++ field) then
        some (naming.getterPrefix ++ field)
      else none
  /-- The order of methods and of implementations does not matter. -/
  order : ∀ others, (ownMethods c.name items).Perm (ownMethods c.name others) →
    ∀ field, (c.field? field).isSome = true →
      getterOf? naming c (ownMethods c.name items) field =
        getterOf? naming c (ownMethods c.name others) field
  /-- A wrapped setter calls the getter that is found. -/
  called : ∀ after report, (enhanceClass naming c items).result = .ok (after, report) →
    List.Forall₂
      (fun m new => ∀ field, TrackedSetter naming c m field →
        ∃ getter, getterOf? naming c (ownMethods c.name items) field.name = some getter ∧
          new.body = wrapped field.name getter m.body)
      (ownMethods c.name items) (ownMethods c.name after)
  /-- Without a getter the run fails, and says so unless an earlier method cannot be wrapped. -/
  missing : ∀ front m back field, ownMethods c.name items = front ++ m :: back →
    TrackedSetter naming c m field → (∀ type, ¬TouchesPrimitive m field type) →
    getterOf? naming c (ownMethods c.name items) field.name = none →
      (∃ error, (enhanceClass naming c items).result = .error error) ∧
        ((∀ earlier ∈ front, Wrappable naming c (ownMethods c.name items) earlier) →
          (enhanceClass naming c items).result = .error (.missingGetter c.displayName field.name))

/-- The getters of a class are found by their names, whatever the order of its methods: for each field by
the rule, unless the own name of the field is taken for another field. -/
theorem getters_resolved (naming : Naming) {c : EntityClass} (items : List Item)
    (h : c.options.settersEnhanced = false) : GettersResolved naming c items where
  rule := fun _ hdeclared => readBy_getterOf?_iff hdeclared
  taken := fun _ hdeclared htaken => getterOf?_of_taken hdeclared htaken
  order := fun _ hperm _ hdeclared => getterOf?_perm hperm hdeclared
  called := by
    intro after report hrun
    obtain ⟨hfault, rfl, -⟩ := (enhanceClass_eq_ok h).mp hrun
    rw [ownMethods_rewritten, List.forall₂_map_right_iff, List.forall₂_same]
    intro m hm field hfield
    have hnone : ∀ error,
        judge naming c (gettersOf naming c (ownMethods c.name items)) m ≠ .fail error := by
      intro error heq
      exact firstError?_eq_none_iff.mp hfault error (heq ▸ List.mem_map_of_mem hm)
    obtain ⟨-, getter, hgetter, hjudge⟩ := judge_eq_wrap _ hfield hnone
    refine ⟨getter, hgetter, ?_⟩
    rw [body_rewriteMethod, hjudge]
    rfl
  missing := by
    intro front m back field hsplit hfield hprimitive hgetter
    have hjudge : judge naming c (gettersOf naming c (ownMethods c.name items)) m =
        .fail (.missingGetter c.displayName field.name) := by
      rw [judge_of_rewritable hfield hprimitive, hgetter]
    obtain ⟨⟨first, hfirst⟩, hblamed⟩ := firstError?_of_fail hsplit hjudge
    rw [enhanceClass_unmarked naming items h]
    constructor
    · exact ⟨first, by rw [hfirst]⟩
    · intro hfront
      rw [hblamed hfront]

/-- The setter of a note calls the note's own getter. -/
theorem note_getter_called :
    ∃ program classes, Program.ofText? Sample.note = some program ∧
      classesOf "" program.items = .ok classes ∧ ∃ c ∈ classes, ∃ after report,
        (enhanceClass {} c program.items).result = .ok (after, report) ∧
        report.enhanced = [("Note", ["text"])] ∧
        getterOf? {} c (ownMethods c.name program.items) "text" = some "text" ∧
        GettersResolved {} c program.items := by
  have hruns : (Program.ofText? Sample.note).any (fun program =>
      match classesOf "" program.items with
      | .ok classes => decide (∃ c ∈ classes, c.options.settersEnhanced = false ∧
          getterOf? {} c (ownMethods c.name program.items) "text" = some "text" ∧
          (enhanceClass {} c program.items).result.map (·.2.enhanced) = .ok [("Note", ["text"])])
      | .error _ => false) = true := by
    decide +kernel
  obtain ⟨program, hsource, hprogram⟩ := (Option.any_eq_true _ _).mp hruns
  split at hprogram
  · rename_i classes hclasses
    obtain ⟨c, hc, hfresh, hgetter, hreport⟩ := of_decide_eq_true hprogram
    obtain ⟨⟨after, report⟩, hrun, henhanced⟩ := map_eq_ok.mp hreport
    exact ⟨program, classes, hsource, hclasses, c, hc, after, report, hrun, henhanced, hgetter,
      getters_resolved {} program.items hfresh⟩
  · cases hprogram

/-- The own getter of a property is missed where its name is taken for another property. -/
theorem own_getter_missed :
    ∃ program classes, Program.ofText? Sample.noteReaders = some program ∧
      classesOf "" program.items = .ok classes ∧
      (∃ c ∈ classes, ReadBy {} (ownMethods c.name program.items) "get_text" (some "get_text")) ∧
      (enhanceText {} Sample.noteReaders "").result = .error (.missingGetter "Note" "get_text") := by
  have hruns : (Program.ofText? Sample.noteReaders).any (fun program =>
      match classesOf "" program.items with
      | .ok classes => decide (∃ c ∈ classes, HasGetter (ownMethods c.name program.items) "get_text")
      | .error _ => false) = true := by
    decide +kernel
  have hfails : (enhanceText {} Sample.noteReaders "").result =
      .error (.missingGetter "Note" "get_text") := by
    decide +kernel
  obtain ⟨program, hsource, hprogram⟩ := (Option.any_eq_true _ _).mp hruns
  split at hprogram
  · rename_i classes hclasses
    obtain ⟨c, hc, hgetter⟩ := of_decide_eq_true hprogram
    exact ⟨program, classes, hsource, hclasses, ⟨c, hc, .first hgetter⟩, hfails⟩
  · cases hprogram

end Enhance

end Chronicle
