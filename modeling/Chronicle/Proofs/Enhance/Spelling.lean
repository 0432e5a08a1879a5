import Chronicle.Proofs.Enhance.Setters
import Chronicle.Proofs.Sample.Sources
import Mathlib.Data.List.Nodup

/-!
# Names and their spellings

A word writes a name as it is or with the mark of a raw name before it, as a keyword must be written. The
setter of a field is found by its word and not by its name. So a setter is noticed only if both words are
written alike: both without the mark, or both with it where setters have no beginning of their own. Any
other setter of the field is left as it is.
-/

namespace Chronicle

namespace Enhance

open Source

/-! ## Words -/

/-- The mark before a raw name. -/
def rawMark : String := "r#"

/-- The name that a word writes. -/
def nameOf (word : String) : String := (stripPrefix? word rawMark).getD word

/-- Whether a text can be a name as far as the mark is concerned. -/
structure IsName (name : String) : Prop where
  nonempty : name ≠ ""
  unmarked : '#' ∉ name.toList

instance : DecidablePred IsName := fun name =>
  decidable_of_iff (name ≠ "" ∧ '#' ∉ name.toList) ⟨fun h => ⟨h.1, h.2⟩, fun h => ⟨h.1, h.2⟩⟩

/-- Whether words write names that are apart from one another. -/
def NamesApart (words : List String) : Prop :=
  (∀ word ∈ words, IsName (nameOf word)) ∧ (words.map nameOf).Nodup

instance : DecidablePred NamesApart := fun _ => inferInstanceAs (Decidable (_ ∧ _))

theorem rawMark_append_ne (name : String) : rawMark ++ name ≠ name := by
  rw [ne_eq, String.append_eq_right_iff]
  decide

/-- A name has two words, one with the mark and one without it. -/
theorem nameOf_eq_iff {word name : String} (h : IsName name) :
    nameOf word = name ↔ word = name ∨ word = rawMark ++ name := by
  unfold nameOf
  cases hstripped : stripPrefix? word rawMark with
  | none =>
      have hplain : word ≠ rawMark ++ name := by
        intro heq
        rw [stripPrefix?_eq_some_iff.mpr heq] at hstripped
        cases hstripped
      simp [hplain]
  | some rest =>
      have hword : word = rawMark ++ rest := stripPrefix?_eq_some_iff.mp hstripped
      have hmarked : word ≠ name := by
        rintro rfl
        apply h.unmarked
        rw [hword, String.toList_append]
        exact List.mem_append_left _ (by decide)
      rw [hword] at hmarked
      simp [hword, hmarked]

/-- A mark cannot be moved past a beginning. -/
theorem rawMark_append_eq_iff {beginning name other : String} (h : '#' ∉ beginning.toList) :
    rawMark ++ (beginning ++ name) = beginning ++ (rawMark ++ other) ↔ beginning = "" ∧ name = other := by
  have hmark : rawMark.toList = ['r', '#'] := by decide
  constructor
  · intro heq
    replace heq := congrArg String.toList heq
    simp only [String.toList_append, hmark] at heq
    match hchars : beginning.toList with
    | [] =>
        rw [hchars] at heq
        exact ⟨String.toList_eq_nil_iff.mp hchars, String.toList_inj.mp (by simpa using heq)⟩
    | [first] => simp [hchars] at heq
    | first :: second :: rest => simp_all
  · rintro ⟨rfl, rfl⟩
    rfl

theorem mem_toList_rawMark_append (name : String) : '#' ∈ (rawMark ++ name).toList := by
  rw [String.toList_append]
  exact List.mem_append_left _ (by decide)

/-! ## Words of setters -/

variable {naming : Naming} {c : EntityClass} {m : Method}

/-- Whether a method is shaped as a setter and its word writes the setters' beginning with a given name
after it. -/
structure SetterOf (naming : Naming) (m : Method) (name : String) : Prop where
  isName : IsName (naming.setterPrefix ++ name)
  named : nameOf m.name = naming.setterPrefix ++ name
  silent : m.signature.result = []
  arguments : ∃ receiver own, ∃ attributes pattern type,
    m.arguments = [.receiver receiver own true true, .typed attributes pattern true type]

/-- Whether the words of a setter and of its field are both without the mark of raw names, or both with it
where setters have no beginning of their own. -/
def WrittenAlike (naming : Naming) (setter word name : String) : Prop :=
  setter = naming.setterPrefix ++ name ∧ word = name ∨
    naming.setterPrefix = "" ∧ setter = rawMark ++ name ∧ word = rawMark ++ name

theorem IsName.beginning {beginning name : String} (h : IsName (beginning ++ name)) :
    '#' ∉ beginning.toList := by
  intro hmem
  apply h.unmarked
  rw [String.toList_append]
  exact List.mem_append_left _ hmem

/-- The word of a setter is the setters' beginning with the field's word after it just if both are written
alike. -/
theorem SetterOf.writtenAlike_iff {word name : String} (h : SetterOf naming m name)
    (hname : IsName name) (hword : nameOf word = name) :
    WrittenAlike naming m.name word name ↔ m.name = naming.setterPrefix ++ word := by
  have hmark := rawMark_append_ne name
  have hwhole := rawMark_append_ne (naming.setterPrefix ++ name)
  unfold WrittenAlike
  -- The four cases are whether the setter's word and the field's word have the mark.
  rcases (nameOf_eq_iff h.isName).mp h.named with hplain | hraw <;>
    rcases (nameOf_eq_iff hname).mp hword with rfl | rfl
  · simp [hplain]
  · constructor
    · rintro (⟨-, heq⟩ | ⟨hempty, hsetter, -⟩)
      · exact absurd heq hmark
      · rw [hplain, hempty, String.empty_append] at hsetter
        exact absurd hsetter.symm hmark
    · intro heq
      rw [hplain, String.append_right_inj] at heq
      exact absurd heq.symm hmark
  · constructor
    · rintro (⟨heq, -⟩ | ⟨-, -, heq⟩)
      · exact absurd (hraw.symm.trans heq) hwhole
      · exact absurd heq.symm hmark
    · intro heq
      exact absurd (hraw.symm.trans heq) hwhole
  · rw [hraw, rawMark_append_eq_iff h.isName.beginning]
    constructor
    · rintro (⟨heq, -⟩ | ⟨hempty, -, -⟩)
      · exact absurd heq hwhole
      · exact ⟨hempty, rfl⟩
    · rintro ⟨hempty, -⟩
      exact .inr ⟨hempty, by rw [hempty, String.empty_append], rfl⟩

/-- A setter is found for a word of its own field only. -/
theorem SetterOf.nameOf_eq {word name : String} (h : SetterOf naming m name)
    (hword : IsName (nameOf word)) (hnamed : m.name = naming.setterPrefix ++ word) :
    nameOf word = name := by
  have hunmarked := h.isName.unmarked
  rcases (nameOf_eq_iff h.isName).mp h.named with hplain | hraw <;>
    rcases (nameOf_eq_iff hword).mp rfl with hown | hown
  · rw [hplain, hown, String.append_right_inj] at hnamed
    exact hnamed.symm
  · rw [hplain, hown, String.append_right_inj] at hnamed
    refine absurd ?_ hunmarked
    rw [hnamed, String.toList_append]
    exact List.mem_append_right _ (mem_toList_rawMark_append _)
  · have hmark := mem_toList_rawMark_append (naming.setterPrefix ++ name)
    rw [← hraw, hnamed, hown, String.toList_append, List.mem_append] at hmark
    rcases hmark with hbeginning | hrest
    · exact absurd hbeginning h.isName.beginning
    · exact absurd hrest hword.unmarked
  · rw [hraw, hown, rawMark_append_eq_iff h.isName.beginning] at hnamed
    exact hnamed.2.symm

/-! ## Fields of a struct -/

/-- Whether the options of a declared field let it be tracked by a class. -/
def FieldTracked (c : EntityClass) (declared : FieldDecl) : Prop :=
  ∃ options, FieldOptions.ofAttributes declared.attributes = .ok options ∧ options.entry = false ∧
    options.transient = false ∧ (c.options.annotatedOnly = true → options.property = true)

theorem names_of_readFields {fields : List FieldDecl} {read : List ClassField}
    (h : EntityClass.readFields fields = .ok read) :
    read.map ClassField.name = fields.filterMap FieldDecl.name := by
  rw [readFields_eq_ok] at h
  induction fields generalizing read with
  | nil =>
      cases h
      rfl
  | cons declared fields ih =>
      rw [List.filter_cons] at h
      rw [List.filterMap_cons]
      cases hname : declared.name with
      | none => simpa [hname] using ih (by simpa [hname] using h)
      | some name =>
          simp only [hname, Option.isSome_some, if_true] at h
          obtain ⟨field, rest, hfield, hrest, rfl⟩ := List.forall₂_cons_left_iff.mp h
          rw [List.map_cons, ih hrest, Option.some.inj (hname.symm.trans hfield.name)]

theorem exists_fieldRead {fields : List FieldDecl} {read : List ClassField} {declared : FieldDecl}
    {word : String} (h : EntityClass.readFields fields = .ok read) (hmem : declared ∈ fields)
    (hword : declared.name = some word) : ∃ field ∈ read, FieldRead declared field := by
  rw [readFields_eq_ok] at h
  have hnamed : declared ∈ fields.filter (·.name.isSome) :=
    List.mem_filter.mpr ⟨hmem, by rw [hword]; rfl⟩
  generalize fields.filter (·.name.isSome) = named at h hnamed
  induction h with
  | nil => cases hnamed
  | @cons first field named read hfirst _ ih =>
      rcases List.mem_cons.mp hnamed with rfl | hlater
      · exact ⟨field, List.mem_cons_self, hfirst⟩
      · obtain ⟨other, hother, hread⟩ := ih hlater
        exact ⟨other, List.mem_cons_of_mem _ hother, hread⟩

/-- A tracked field is the first one of the class with its word. -/
theorem trackedSetter_of_named {fields : List FieldDecl} {declared : FieldDecl} {word : String}
    (hread : EntityClass.readFields fields = .ok c.fields)
    (hnames : NamesApart (fields.filterMap FieldDecl.name)) (hmem : declared ∈ fields)
    (hword : declared.name = some word) (htracked : FieldTracked c declared)
    (hsetter : SetterOf naming m (nameOf word)) (hnamed : m.name = naming.setterPrefix ++ word) :
    ∃ field, field.name = word ∧ TrackedSetter naming c m field := by
  obtain ⟨field, hfield, hdeclared⟩ := exists_fieldRead hread hmem hword
  obtain rfl : field.name = word := Option.some.inj (hdeclared.name.symm.trans hword)
  obtain ⟨options, hoptions, hentry, htransient, hannotated⟩ := htracked
  cases hdeclared.options.symm.trans hoptions
  have hdistinct : (c.fields.map ClassField.name).Nodup := by
    rw [names_of_readFields hread]
    exact hnames.2.of_map _
  have hnonempty : field.name ≠ "" := by
    have hname := hnames.1 field.name (List.mem_filterMap.mpr ⟨declared, hmem, hword⟩)
    intro hempty
    rw [hempty] at hname
    exact hname.nonempty rfl
  refine ⟨field, rfl, hnamed, hnonempty, hsetter.silent, hsetter.arguments, ?_, hentry, htransient,
    hannotated⟩
  cases hfound : c.field? field.name with
  | none =>
      rw [EntityClass.field?, List.find?_eq_none] at hfound
      simpa using hfound field hfield
  | some other =>
      have hsame : other.name = field.name := by simpa using List.find?_some hfound
      rw [List.inj_on_of_nodup_map hdistinct (List.mem_of_find?_eq_some hfound) hfield hsame]

/-- A setter that is not written as its field sets no tracked field. -/
theorem not_trackedSetter_of_named_ne {fields : List FieldDecl} {declared : FieldDecl} {word : String}
    (hread : EntityClass.readFields fields = .ok c.fields)
    (hnames : NamesApart (fields.filterMap FieldDecl.name)) (hmem : declared ∈ fields)
    (hword : declared.name = some word) (hsetter : SetterOf naming m (nameOf word))
    (hnamed : m.name ≠ naming.setterPrefix ++ word) (field : ClassField) :
    ¬TrackedSetter naming c m field := by
  intro htracked
  have hfield : field.name ∈ fields.filterMap FieldDecl.name := by
    rw [← names_of_readFields hread]
    exact List.mem_map_of_mem (List.mem_of_find?_eq_some htracked.declared)
  have hown : word ∈ fields.filterMap FieldDecl.name := List.mem_filterMap.mpr ⟨declared, hmem, hword⟩
  have hsame : nameOf field.name = nameOf word :=
    hsetter.nameOf_eq (hnames.1 _ hfield) htracked.named
  have hword : field.name = word := List.inj_on_of_nodup_map hnames.2 hfield hown hsame
  exact hnamed (hword ▸ htracked.named)

/-! ## The setters of a struct -/

/-- What becomes of a method in its function as a setter of tracked fields of a struct: a setter that is
written as its field is wrapped for that field, and any other one is left as it is. -/
def SetterNoticed (naming : Naming) (declared : Struct) (c : EntityClass) (m new : Method) : Prop :=
  ∀ field ∈ declared.fields.list, ∀ word, field.name = some word → FieldTracked c field →
    SetterOf naming m (nameOf word) →
      (WrittenAlike naming m.name word (nameOf word) →
        ∃ getter, new.body = wrapped word getter m.body) ∧
      (¬WrittenAlike naming m.name word (nameOf word) → new.body = m.body)

/-- In every run that does not fail exactly the setters that are written as their tracked fields are
wrapped for these. -/
theorem setters_noticed {declared : Struct} {path : String} {items after : List Item} {report : Report}
    (hclass : EntityClass.ofStruct declared path = .ok c) (hfresh : c.options.settersEnhanced = false)
    (hnames : NamesApart (declared.fields.list.filterMap FieldDecl.name))
    (hrun : (enhanceClass naming c items).result = .ok (after, report)) :
    List.Forall₂ (SetterNoticed naming declared c) (ownMethods c.name items)
      (ownMethods c.name after) := by
  obtain ⟨hfault, rfl, -⟩ := (enhanceClass_eq_ok hfresh).mp hrun
  have hread := ofStruct_fields hclass
  rw [ownMethods_rewritten, List.forall₂_map_right_iff, List.forall₂_same]
  intro m hm field hfield word hword htracked hsetter
  have hname : IsName (nameOf word) := hnames.1 word (List.mem_filterMap.mpr ⟨field, hfield, hword⟩)
  rw [hsetter.writtenAlike_iff hname rfl]
  constructor
  · intro hnamed
    obtain ⟨own, rfl, hown⟩ :=
      trackedSetter_of_named hread hnames hfield hword htracked hsetter hnamed
    obtain ⟨-, getter, -, -, hbody⟩ := body_rewriteMethod_of_tracked hfault hm hown
    exact ⟨getter.name, hbody⟩
  · intro hnamed
    exact body_rewriteMethod_of_not_tracked items
      (not_trackedSetter_of_named_ne hread hnames hfield hword hsetter hnamed)

/-- The setter of a note is noticed. -/
theorem note_setter_noticed :
    ∃ program, Program.ofText? Sample.note = some program ∧
      ∃ declared ∈ entityStructs program.items, ∃ c after report,
        EntityClass.ofStruct declared "" = .ok c ∧
        (enhanceClass {} c program.items).result = .ok (after, report) ∧
        report.enhanced = [("Note", ["text"])] ∧
        List.Forall₂ (SetterNoticed {} declared c) (ownMethods c.name program.items)
          (ownMethods c.name after) := by
  have hruns : (Program.ofText? Sample.note).any (fun program =>
      (entityStructs program.items).any fun declared =>
        match EntityClass.ofStruct declared "" with
        | .ok c => decide (c.options.settersEnhanced = false ∧
            NamesApart (declared.fields.list.filterMap FieldDecl.name) ∧
            (enhanceClass {} c program.items).result.map (·.2.enhanced) = .ok [("Note", ["text"])])
        | .error _ => false) = true := by
    decide +kernel
  obtain ⟨program, hsource, hprogram⟩ := (Option.any_eq_true _ _).mp hruns
  obtain ⟨declared, hdeclared, hstruct⟩ := List.any_eq_true.mp hprogram
  split at hstruct
  · rename_i c hclass
    obtain ⟨hfresh, hnames, hreport⟩ := of_decide_eq_true hstruct
    obtain ⟨⟨after, report⟩, hrun, henhanced⟩ := map_eq_ok.mp hreport
    exact ⟨program, hsource, declared, hdeclared, c, after, report, hclass, hrun, henhanced,
      setters_noticed hclass hfresh hnames hrun⟩
  · cases hstruct

theorem SetterOf.of_setterField? {name : String} (h : setterField? naming m = some name)
    (hname : IsName (naming.setterPrefix ++ name)) : SetterOf naming m name := by
  obtain ⟨hnamed, -, hsilent, harguments⟩ := setterField?_eq_some_iff.mp h
  exact ⟨hname, (nameOf_eq_iff hname).mpr (.inl hnamed), hsilent, harguments⟩

/-- The setter of a property that is named by a keyword is left as it is by a run that does not fail. -/
theorem keyword_setter_missed :
    ∃ program classes, Program.ofText? Sample.keywordNote = some program ∧
      classesOf "" program.items = .ok classes ∧ ∃ c ∈ classes, ∃ after report,
        (enhanceClass {} c program.items).result = .ok (after, report) ∧
        (∃ field ∈ c.fields, nameOf field.name = "type" ∧ c.isTracked field = true) ∧
        (∃ m ∈ ownMethods c.name program.items, SetterOf {} m "type") ∧
        ownMethods c.name after = ownMethods c.name program.items := by
  have hruns : (Program.ofText? Sample.keywordNote).any (fun program =>
      match classesOf "" program.items with
      | .ok classes => decide (∃ c ∈ classes,
          (∃ field ∈ c.fields, nameOf field.name = "type" ∧ c.isTracked field = true) ∧
          (∃ m ∈ ownMethods c.name program.items, setterField? {} m = some "type") ∧
          (enhanceClass {} c program.items).result.map (fun outcome => ownMethods c.name outcome.1) =
            .ok (ownMethods c.name program.items))
      | .error _ => false) = true := by
    decide +kernel
  obtain ⟨program, hsource, hprogram⟩ := (Option.any_eq_true _ _).mp hruns
  split at hprogram
  · rename_i classes hclasses
    obtain ⟨c, hc, hfield, ⟨m, hm, hsetter⟩, hmethods⟩ := of_decide_eq_true hprogram
    obtain ⟨⟨after, report⟩, hrun, hsame⟩ := map_eq_ok.mp hmethods
    exact ⟨program, classes, hsource, hclasses, c, hc, after, report, hrun, hfield,
      ⟨m, hm, .of_setterField? hsetter (by decide)⟩, hsame⟩
  · cases hprogram

end Enhance

end Chronicle
