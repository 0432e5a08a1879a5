import Chronicle.Proofs.Enhance.Getters
import Chronicle.Proofs.Sample.Sources
import Mathlib.Data.List.Nodup

/-!
# Which setters are wrapped

A run wraps the tracked setters in the implementations of a class that has no mark, and no other method.
It reports their fields, and it fails where one of them cannot be wrapped.

## Implementation notes

Two classes of one name would share their implementations, so that a method could be wrapped for either of
them. Where the names of entities are apart an implementation has at most one owner.
-/

namespace Chronicle

namespace Enhance

open Source

variable {naming : Naming} {c : EntityClass} {m : Method} {field : ClassField}

/-! ## Methods of a scope -/

/-- What becomes of a method of an implementation among the items of a scope with given classes. -/
structure MethodOutcome (naming : Naming) (classes : List EntityClass) (items : List Item)
    (block : ImplBlock) (m after : Method) : Prop where
  changed_iff : after.body ≠ m.body ↔
    ∃ c ∈ fresh classes, IsBlockOf c.name block ∧ ∃ field, TrackedSetter naming c m field
  wrapped : ∀ c ∈ fresh classes, IsBlockOf c.name block → ∀ field, TrackedSetter naming c m field →
    (∀ type, ¬TouchesPrimitive m field type) ∧
      ∃ getter ∈ inherentMethods c.name items, ReadsField naming getter field.name ∧
        after.body = Enhance.wrapped field.name getter.name m.body

/-- Whether exactly the tracked setters of a scope with given classes were wrapped and reported. -/
structure SettersWrapped (naming : Naming) (s : Scope) (classes : List EntityClass)
    (outcome : Scope × Report) : Prop where
  read : s.classes = .ok classes
  methods : List.Forall₂
    (fun block after =>
      List.Forall₂ (MethodOutcome naming classes s.items block) block.methods after.methods)
    (blocksOf s.items) (blocksOf outcome.1.items)
  report : List.Forall₂
    (fun c entry => entry.1 = c.displayName ∧
      SettersListed naming c (inherentMethods c.name s.items) entry.2)
    (fresh classes) outcome.2.enhanced

/-- A class of the implementations among items, with the names of classes apart. -/
theorem owner_unique {classes : List EntityClass} {block : ImplBlock} {other : EntityClass}
    (hnames : (classes.map EntityClass.name).Nodup) (hc : c ∈ classes) (hother : other ∈ classes)
    (hblock : IsBlockOf c.name block) (hblock' : IsBlockOf other.name block) : other = c :=
  List.inj_on_of_nodup_map hnames hother hc (Option.some.inj (hblock'.2.symm.trans hblock.2))

theorem methodOutcome_of_owner {classes : List EntityClass} {items : List Item} {block : ImplBlock}
    (hnames : ((fresh classes).map EntityClass.name).Nodup)
    (hplain : ∀ block ∈ blocksOf items, NamedPlainly block) (hc : c ∈ fresh classes)
    (hfault : firstError? (verdictsAmong naming items c) = none) (hblock : IsBlockOf c.name block)
    (hmem : m ∈ ownMethods c.name items) :
    MethodOutcome naming classes items block m (rewriteMethod naming items c m) := by
  constructor
  · constructor
    · intro hchanged
      refine ⟨c, hc, hblock, ?_⟩
      by_contra hnone
      exact hchanged (body_rewriteMethod_of_not_tracked items (not_exists.mp hnone))
    · rintro ⟨other, hother, hblock', field, htracked⟩
      obtain rfl := owner_unique hnames hc hother hblock hblock'
      obtain ⟨-, getter, -, -, hbody⟩ := body_rewriteMethod_of_tracked hfault hmem htracked
      rw [hbody]
      exact wrapped_ne _ _ _
  · intro other hother hblock' field htracked
    obtain rfl := owner_unique hnames hc hother hblock hblock'
    rw [inherentMethods_eq hplain]
    exact body_rewriteMethod_of_tracked hfault hmem htracked

theorem methodOutcome_of_no_owner {classes : List EntityClass} {items : List Item}
    {block : ImplBlock} (h : ∀ c ∈ fresh classes, ¬IsBlockOf c.name block) :
    MethodOutcome naming classes items block m m where
  changed_iff := by
    simp only [ne_eq, not_true_eq_false, false_iff]
    rintro ⟨c, hc, hblock, -⟩
    exact h c hc hblock
  wrapped := fun c hc hblock => absurd hblock (h c hc)

theorem fresh_names_nodup {s : Scope} {classes : List EntityClass}
    (h : ((entityStructs s.items).map Struct.name).Nodup) (hclasses : s.classes = .ok classes) :
    ((fresh classes).map EntityClass.name).Nodup := by
  rw [← Scope.names_of_classes hclasses] at h
  exact h.sublist (List.filter_sublist.map EntityClass.name)

theorem methodOutcomes {s : Scope} {classes : List EntityClass} {block : ImplBlock}
    (hnames : ((fresh classes).map EntityClass.name).Nodup)
    (hplain : ∀ block ∈ blocksOf s.items, NamedPlainly block)
    (hfault : firstFault? naming classes s.items = none) (hblock : block ∈ blocksOf s.items) :
    List.Forall₂ (MethodOutcome naming classes s.items block) block.methods
      (rewriteBlock naming s.items (fresh classes) block).methods := by
  by_cases howner : ∃ c ∈ fresh classes, IsBlockOf c.name block
  · obtain ⟨c, hc, hown⟩ := howner
    have hisOwn : isOwnImpl block c.name = true := (isOwnImpl_iff (hplain block hblock)).mpr hown
    have hcount : ((fresh classes).map EntityClass.name).count c.name = 1 :=
      List.count_eq_one_of_mem hnames (List.mem_map_of_mem hc)
    rw [rewriteBlock_of_own naming s.items hcount hc hisOwn, methods_replaceInBlock, if_pos hisOwn,
      List.forall₂_map_right_iff, List.forall₂_same]
    intro m hm
    have hmem := mem_ownMethods hblock hisOwn hm
    exact methodOutcome_of_owner hnames hplain hc (List.findSome?_eq_none_iff.mp hfault c hc) hown hmem
  · have hnone : ∀ c ∈ fresh classes, ¬IsBlockOf c.name block := by
      intro c hc hown
      exact howner ⟨c, hc, hown⟩
    have hnot : ∀ c ∈ fresh classes, ¬isOwnImpl block c.name = true := by
      intro c hc hown
      exact hnone c hc ((isOwnImpl_iff (hplain block hblock)).mp hown)
    rw [rewriteBlock_of_not_own naming s.items hnot, List.forall₂_same]
    intro m _
    exact methodOutcome_of_no_owner hnone

theorem Scope.EnhancesTo.settersWrapped {s : Scope} {outcome : Scope × Report}
    (h : s.EnhancesTo naming outcome) (hdistinct : ((entityStructs s.items).map Struct.name).Nodup)
    (hplain : ∀ block ∈ blocksOf s.items, NamedPlainly block) :
    ∃ classes, SettersWrapped naming s classes outcome := by
  obtain ⟨classes, hclasses, hfault, rfl⟩ := Scope.enhancesTo_iff.mp h
  have hnames := fresh_names_nodup hdistinct hclasses
  refine ⟨classes, hclasses, ?_, ?_⟩
  · rw [blocksOf_enhancedItems, List.forall₂_map_right_iff, List.forall₂_same]
    intro block hblock
    exact methodOutcomes hnames hplain hfault hblock
  · rw [reportOf, List.forall₂_map_right_iff, List.forall₂_same]
    intro c hc
    refine ⟨rfl, ?_⟩
    rw [inherentMethods_eq hplain]
    exact settersListed_wrappedFields _ (List.findSome?_eq_none_iff.mp hfault c hc)

/-! ## Errors -/

/-- Whether a method is a tracked setter of a class without the mark in a scope. -/
structure SetterIn (naming : Naming) (s : Scope) (c : EntityClass) (m : Method) (field : ClassField) :
    Prop where
  owner : ∃ classes, s.classes = .ok classes ∧ c ∈ fresh classes
  inherent : m ∈ inherentMethods c.name s.items
  tracked : TrackedSetter naming c m field

/-- Whether an error is about a tracked setter of a class with the given methods: its primitive type, or
else its getter, which is not among them. -/
inductive BlamesSetter (naming : Naming) (c : EntityClass) (methods : List Method) (m : Method)
    (field : ClassField) : EnhanceError → Prop
  | primitive {type : String} (h : TouchesPrimitive m field type) :
      BlamesSetter naming c methods m field (.primitiveField c.displayName field.name type)
  | unread (hprimitive : ∀ type, ¬TouchesPrimitive m field type)
      (h : Unread naming c methods field.name) :
      BlamesSetter naming c methods m field (.missingGetter c.displayName field.name)

/-- Errors of verdicts are about tracked setters. -/
theorem blamesSetter_of_judge {methods : List Method} {error : EnhanceError}
    (h : judge naming c (gettersOf naming c methods) m = .fail error) :
    ∃ field, TrackedSetter naming c m field ∧ BlamesSetter naming c methods m field error := by
  by_cases htracked : ∃ field, TrackedSetter naming c m field
  · obtain ⟨field, hfield⟩ := htracked
    refine ⟨field, hfield, ?_⟩
    cases hprimitive : primitiveOf? m field with
    | some type =>
        rw [judge_of_tracked _ hfield, hprimitive] at h
        cases h
        exact .primitive (.of_primitiveOf? hprimitive)
    | none =>
        have hnone := primitiveOf?_eq_none_iff.mp hprimitive
        rw [judge_of_rewritable hfield hnone] at h
        cases hgetter : getterOf? naming c methods field.name with
        | some getter => simp [hgetter] at h
        | none =>
            rw [hgetter] at h
            cases h
            exact .unread hnone ((getterOf?_eq_none_iff hfield.declares).mp hgetter)
  · rcases judge_of_not_tracked _ (not_exists.mp htracked) with hkeep | ⟨name, huntracked⟩
    · rw [hkeep] at h
      cases h
    · rw [huntracked] at h
      cases h

theorem firstError?_eq_some {verdicts : List Verdict} {error : EnhanceError}
    (h : firstError? verdicts = some error) : .fail error ∈ verdicts := by
  obtain ⟨verdict, hmem, herror⟩ := List.exists_of_findSome?_eq_some h
  cases verdict <;> cases herror
  exact hmem

/-- A scope fails on an option or on a tracked setter. -/
theorem blamesSetter_of_scope {s : Scope} {error : EnhanceError}
    (hplain : ∀ block ∈ blocksOf s.items, NamedPlainly block) (h : s.fault? naming = some error) :
    s.classes = .error error ∨
      ∃ c m field, SetterIn naming s c m field ∧
        BlamesSetter naming c (inherentMethods c.name s.items) m field error := by
  rw [Scope.fault?_eq] at h
  cases hclasses : s.classes with
  | error cause =>
      rw [hclasses] at h
      cases h
      exact .inl rfl
  | ok classes =>
      rw [hclasses] at h
      right
      obtain ⟨c, hc, herror⟩ := List.exists_of_findSome?_eq_some h
      obtain ⟨m, hm, hjudge⟩ := List.mem_map.mp (firstError?_eq_some herror)
      obtain ⟨field, htracked, hblames⟩ := blamesSetter_of_judge hjudge
      rw [← inherentMethods_eq hplain] at hm hblames
      exact ⟨c, m, field, ⟨⟨classes, hclasses, hc⟩, hm, htracked⟩, hblames⟩

/-- A scope with a tracked setter of a primitive type fails. -/
theorem SetterIn.scope_fails {s : Scope} {type : String}
    (hplain : ∀ block ∈ blocksOf s.items, NamedPlainly block) (h : SetterIn naming s c m field)
    (hprimitive : TouchesPrimitive m field type) : s.fault? naming ≠ none := by
  intro hnone
  obtain ⟨classes, hclasses, hc⟩ := h.owner
  rw [Scope.fault?_eq, hclasses] at hnone
  have hfault := List.findSome?_eq_none_iff.mp hnone c hc
  have hmem := h.inherent
  rw [inherentMethods_eq hplain] at hmem
  exact (body_rewriteMethod_of_tracked hfault hmem h.tracked).1 type hprimitive

/-! ## The setters of a program -/

/-- Exactly the tracked setters of a program are wrapped and reported. A program with a tracked setter
of a primitive type is rejected, and the error of a rejected program is about an option, about the type of
such a setter, or about a setter without a primitive type that no getter belongs to. -/
theorem exactly_tracked_setters_wrapped {source : String} {program : Program}
    (hsource : Program.ofText? source = some program)
    (hdistinct : ∀ s ∈ scopes program, ((entityStructs s.items).map Struct.name).Nodup)
    (hplain : ∀ s ∈ scopes program, ∀ block ∈ blocksOf s.items, NamedPlainly block)
    (naming : Naming) (origin : String) :
    (∀ output report, (enhanceText naming source origin).result = .ok (output, report) →
      ∃ enhanced outcomes, output = enhanced.text ∧ scopes enhanced = outcomes.map Prod.fst ∧
        report = Report.concat (outcomes.map Prod.snd) ∧
        List.Forall₂ (fun s outcome => ∃ classes, SettersWrapped naming s classes outcome)
          (scopes program) outcomes) ∧
    (∀ s ∈ scopes program, ∀ c m field type, SetterIn naming s c m field →
      TouchesPrimitive m field type →
      ∃ error, (enhanceText naming source origin).result = .error error) ∧
    (∀ error, (enhanceText naming source origin).result = .error error →
      ∃ s ∈ scopes program, s.classes = .error error ∨
        ∃ c m field, SetterIn naming s c m field ∧
          BlamesSetter naming c (inherentMethods c.name s.items) m field error) := by
  have hfault : fault? (enhanceText naming source origin).result =
      (scopes program).findSome? (Scope.fault? naming) := by
    rw [fault?_enhanceText hsource, fault?_enhanceProgram]
  refine ⟨?_, ?_, ?_⟩
  · intro output report hrun
    obtain ⟨_, enhanced, hread, hrun, rfl⟩ := enhanceText_eq_ok.mp hrun
    cases hsource.symm.trans hread
    obtain ⟨-, outcomes, hall, hscopes, hreport⟩ := enhanceProgram_scopes hrun
    refine ⟨enhanced, outcomes, rfl, hscopes, hreport, ?_⟩
    have hboth := (List.forall₂_and_left _ _).mpr ⟨fun s hs => And.intro (hdistinct s hs) (hplain s hs), hall⟩
    apply hboth.imp
    rintro s outcome ⟨⟨hnames, hblocks⟩, hscope⟩
    exact hscope.settersWrapped hnames hblocks
  · intro s hs c m field type hsetter hprimitive
    cases hrun : (enhanceText naming source origin).result with
    | error error => exact ⟨error, rfl⟩
    | ok outcome =>
        rw [hrun] at hfault
        have hnone := List.findSome?_eq_none_iff.mp hfault.symm s hs
        exact absurd hnone (hsetter.scope_fails (hplain s hs) hprimitive)
  · intro error hrun
    rw [hrun] at hfault
    obtain ⟨s, hs, hscope⟩ := List.exists_of_findSome?_eq_some hfault.symm
    exact ⟨s, hs, blamesSetter_of_scope (hplain s hs) hscope⟩

/-- The setter of a note is wrapped and reported. -/
theorem note_setter_wrapped :
    ∃ program output report, Program.ofText? Sample.note = some program ∧
      (enhanceText {} Sample.note "").result = .ok (output, report) ∧
      report.enhanced = [("Note", ["text"])] ∧
      ∃ enhanced outcomes, output = enhanced.text ∧ scopes enhanced = outcomes.map Prod.fst ∧
        report = Report.concat (outcomes.map Prod.snd) ∧
        List.Forall₂ (fun s outcome => ∃ classes, SettersWrapped {} s classes outcome)
          (scopes program) outcomes := by
  have hreport : ((enhanceText {} Sample.note "").result.map fun outcome => outcome.2.enhanced) =
      .ok [("Note", ["text"])] := by
    decide +kernel
  have hread : (Program.ofText? Sample.note).any (fun program => (scopes program).all fun s =>
      decide (((entityStructs s.items).map Struct.name).Nodup ∧
        ∀ block ∈ blocksOf s.items, NamedPlainly block)) = true := by
    decide +kernel
  obtain ⟨⟨output, report⟩, hrun, henhanced⟩ := map_eq_ok.mp hreport
  obtain ⟨program, hsource, hread⟩ := (Option.any_eq_true _ _).mp hread
  have hscopes : ∀ s ∈ scopes program, ((entityStructs s.items).map Struct.name).Nodup ∧
      ∀ block ∈ blocksOf s.items, NamedPlainly block := by
    intro s hs
    exact of_decide_eq_true (List.all_eq_true.mp hread s hs)
  obtain ⟨hwrapped, -, -⟩ := exactly_tracked_setters_wrapped hsource
    (fun s hs => (hscopes s hs).1) (fun s hs => (hscopes s hs).2) {} ""
  exact ⟨program, output, report, hsource, hrun, henhanced, hwrapped output report hrun⟩

end Enhance

end Chronicle
