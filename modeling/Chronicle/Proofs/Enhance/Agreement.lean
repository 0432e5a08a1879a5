import Chronicle.Enhance.Inline
import Chronicle.Proofs.Enhance.Descriptions
import Chronicle.Proofs.Enhance.Generated
import Chronicle.Proofs.Enhance.Setters
import Chronicle.Proofs.Sample.Sources
import Mathlib.Data.List.Nodup

/-!
# Wrapped setters and generated code

Setters are wrapped by one pass over a program, and the code of an entity is generated by another one
from the struct alone. Where both accept a struct, they agree: the code says that the setters are
enhanced, and a wrapped setter tells its listeners of a property that the code names and reads.

## Implementation notes

Generated code names its properties in literals, and so does a wrapped setter. What is compared is what
the literals stand for, since this is what a running program compares.
-/

namespace Chronicle

namespace Enhance

open Source

variable {naming : Naming}

/-! ## What a setter tells -/

/-- The statement that tells the listeners of a property whose name a literal stands for. -/
def tellListeners (literal : String) : Tokens :=
  code ":: entity_model :: fire_listeners" ++
    group .paren (code "& * self ," ++ [.literal literal] ++ code ", __prev , __new") ++ code ";"

/-- Whether the last statement of a body tells the listeners of the property with a given name. -/
def TellsOf (name : String) (body : Tokens) : Prop :=
  ∃ front literal, body = front ++ tellListeners literal ∧ textValue? literal = some name

theorem tellListeners_injective {literal other : String}
    (h : tellListeners literal = tellListeners other) : literal = other := by
  simpa [tellListeners, group] using h

theorem exists_wrapped_eq (field getter : String) (body : Tokens) :
    ∃ front, wrapped field getter body =
      front ++ tellListeners (Scanner.textLiteral field.toList) := by
  refine ⟨keepValue "__prev" getter ++ group .paren (code "| |" ++ group .brace body) ++
    group .paren [] ++ code ";" ++ keepValue "__new" getter, ?_⟩
  simp only [wrapped, tellListeners, List.append_assoc]

/-- A wrapped setter tells of the property for which it was wrapped and of no other. -/
theorem tellsOf_wrapped_iff {field getter name : String} {body : Tokens} :
    TellsOf name (wrapped field getter body) ↔ name = field := by
  obtain ⟨front, hwrapped⟩ := exists_wrapped_eq field getter body
  rw [hwrapped]
  constructor
  · rintro ⟨other, literal, hbody, hname⟩
    obtain ⟨-, htell⟩ := List.append_inj' hbody rfl
    obtain rfl := tellListeners_injective htell
    rw [textValue?_textLiteral] at hname
    exact (Option.some.inj hname).symm
  · rintro rfl
    exact ⟨front, _, rfl, textValue?_textLiteral name⟩

/-- Whether a method after a run is a wrapped setter that tells of a property of its class. -/
structure TellsProperty (naming : Naming) (c : EntityClass) (m after : Method) (field : ClassField) :
    Prop where
  tracked : TrackedSetter naming c m field
  wrapped : ∃ getter, after.body = Enhance.wrapped field.name getter m.body
  property : field.name ∈ c.propertyNames
  tells : ∀ name, TellsOf name after.body ↔ name = field.name

theorem TrackedSetter.mem_propertyNames {c : EntityClass} {m : Method} {field : ClassField}
    (h : TrackedSetter naming c m field) : field.name ∈ c.propertyNames := by
  have hproperty : field.isProperty = true := by
    simp [ClassField.isProperty, h.notEntry, h.notTransient]
  have hmem : field ∈ c.fields := List.mem_of_find?_eq_some h.declared
  exact List.mem_map_of_mem (List.mem_filter.mpr ⟨hmem, hproperty⟩)

/-- A changed body of a method of a class is that of a setter which tells of a property. -/
theorem tellsProperty_of_changed {items : List Item} {c : EntityClass} {m : Method}
    (hfault : firstError? (verdictsAmong naming items c) = none) (hmem : m ∈ ownMethods c.name items)
    (hchanged : (rewriteMethod naming items c m).body ≠ m.body) :
    ∃ field, TellsProperty naming c m (rewriteMethod naming items c m) field := by
  by_cases htracked : ∃ field, TrackedSetter naming c m field
  · obtain ⟨field, hfield⟩ := htracked
    obtain ⟨-, getter, -, -, hbody⟩ := body_rewriteMethod_of_tracked hfault hmem hfield
    refine ⟨field, hfield, ⟨getter.name, hbody⟩, hfield.mem_propertyNames, ?_⟩
    intro name
    rw [hbody]
    exact tellsOf_wrapped_iff
  · exact absurd (body_rewriteMethod_of_not_tracked items (not_exists.mp htracked)) hchanged

/-- The implementations of a class hold no other changed bodies, if no other class has its name. -/
theorem setters_tell {items : List Item} {classes : List EntityClass} {c : EntityClass}
    (hcount : ((fresh classes).map EntityClass.name).count c.name = 1) (hc : c ∈ fresh classes)
    (hfault : firstFault? naming classes items = none) :
    List.Forall₂
      (fun block rewritten => isOwnImpl block c.name = true → List.Forall₂
        (fun m new => new.body ≠ m.body → ∃ field, TellsProperty naming c m new field)
        block.methods rewritten.methods)
      (blocksOf items) (blocksOf (enhancedItems naming classes items)) := by
  rw [blocksOf_enhancedItems, List.forall₂_map_right_iff, List.forall₂_same]
  intro block hblock hown
  rw [rewriteBlock_of_own naming items hcount hc hown, methods_replaceInBlock, if_pos hown,
    List.forall₂_map_right_iff, List.forall₂_same]
  intro m hm hchanged
  apply tellsProperty_of_changed
  · exact List.findSome?_eq_none_iff.mp hfault c hc
  · exact mem_ownMethods hblock hown hm
  · exact hchanged

/-! ## The marked struct -/

theorem getElem?_withMarks (names : List String) (front back : List Item) (declared : Struct) :
    (withMarks names (front ++ .struct declared :: back))[front.length]? =
      some (.struct (declared.marked
        (if back.any (isStructNamed declared.name) then 0 else names.count declared.name))) := by
  induction front with
  | nil => rfl
  | cons item front ih =>
      cases item <;>
        simp only [List.cons_append, withMarks, List.length_cons, List.getElem?_cons_succ, ih]

theorem getElem?_enhancedItems (classes : List EntityClass) {front back : List Item}
    {declared : Struct} (hlast : back.any (isStructNamed declared.name) = false) :
    (enhancedItems naming classes (front ++ .struct declared :: back))[front.length]? =
      some (.struct (declared.marked (((fresh classes).map EntityClass.name).count declared.name))) := by
  rw [enhancedItems, ← map_rewriteItem_withMarks, List.getElem?_map, getElem?_withMarks, hlast]
  rfl

/-- Where no other struct of a scope has the name of an entity without the mark, the name occurs once
among the classes without the mark. -/
theorem count_fresh_eq_one {s : Scope} {classes : List EntityClass} {front back : List Item}
    {declared : Struct} (hclasses : s.classes = .ok classes)
    (hsplit : s.items = front ++ .struct declared :: back)
    (hunique : ∀ item ∈ front ++ back, isStructNamed declared.name item = false)
    (hfresh : IsFresh declared) :
    ((fresh classes).map EntityClass.name).count declared.name = 1 := by
  have hapart : ∀ item ∈ front ++ back, ¬Shadowed item (.struct declared) := by
    intro item hmem hshadowed
    cases item with
    | struct other =>
        have hname : declared.name = other.name := of_decide_eq_true hshadowed.2
        have hother := hunique _ hmem
        simp [isStructNamed, hname] at hother
    | _ => exact hshadowed
  rw [fresh_names_eq hclasses, hsplit, count_freshStructs hapart, if_pos hfresh]

theorem mem_fresh_of_isFresh {s : Scope} {classes : List EntityClass} {declared : Struct}
    {c : EntityClass} (hclasses : s.classes = .ok classes) (hmem : .struct declared ∈ s.items)
    (hfresh : IsFresh declared) (hc : EntityClass.ofStruct declared s.path = .ok c) :
    c ∈ fresh classes := by
  have hread := classesOf_eq_ok.mp hclasses
  obtain ⟨i, hi, rfl⟩ := List.mem_iff_getElem.mp (mem_entityStructs.mpr ⟨hmem, hfresh.1⟩)
  have hclass : i < classes.length := by
    rw [← hread.length_eq]
    exact hi
  have hown := hread.get hi hclass
  obtain rfl : c = classes[i] := Except.ok.inj (hc.symm.trans hown)
  have hunmarked := (isFresh_iff hfresh.1 hc).mp hfresh
  exact List.mem_filter.mpr ⟨List.getElem_mem hclass, by simp [hunmarked]⟩

/-! ## Entities after a run -/

/-- Whether an entity of a scope, its implementations and the code that is generated for it agree after a
run. The position is that of the entity among the items. -/
structure EntityAgrees (naming : Naming) (s after : Scope) (position : Nat) (declared : Struct)
    (c : EntityClass) : Prop where
  marked : after.items[position]? = some (.struct (declared.marked 1))
  options : ∃ options, StructOptions.ofAttributes declared.attributes = .ok options ∧
    StructOptions.ofAttributes (declared.marked 1).attributes =
      .ok { options with settersEnhanced := true }
  generated : ∃ d written, Description.ofStruct (declared.marked 1) = .ok d ∧
    (Candidate.struct (declared.marked 1)).generated = .ok written ∧
    Generated.SaysEnhanced d written c.propertyNames
  setters : List.Forall₂
    (fun block rewritten => isOwnImpl block declared.name = true → List.Forall₂
      (fun m new => new.body ≠ m.body → ∃ field, TellsProperty naming c m new field)
      block.methods rewritten.methods)
    (blocksOf s.items) (blocksOf after.items)
  untold : (c.fields.map ClassField.name).Nodup → ∀ field ∈ c.fields,
    field.options.entry = true ∨ field.options.transient = true → field.name ∉ c.propertyNames

/-- Whether all entities of a scope agree after a run that are enhanced by it, have a name of their own
and have code generated for them. -/
def ScopeAgrees (naming : Naming) (s after : Scope) : Prop :=
  ∀ front declared back, s.items = front ++ .struct declared :: back →
    (∀ item ∈ front ++ back, isStructNamed declared.name item = false) → IsFresh declared →
    ∀ written, (Candidate.struct declared).generated = .ok written →
      ∃ c, EntityClass.ofStruct declared s.path = .ok c ∧
        EntityAgrees naming s after front.length declared c

/-- A name of a property belongs to no other field. -/
theorem EntityClass.not_mem_propertyNames {c : EntityClass} {field : ClassField}
    (hdistinct : (c.fields.map ClassField.name).Nodup) (hmem : field ∈ c.fields)
    (hnot : field.options.entry = true ∨ field.options.transient = true) :
    field.name ∉ c.propertyNames := by
  intro hname
  obtain ⟨other, hother, hsame⟩ := List.mem_map.mp hname
  obtain ⟨hdeclared, hproperty⟩ := List.mem_filter.mp hother
  obtain rfl := List.inj_on_of_nodup_map hdistinct hdeclared hmem hsame
  rcases hnot with hentry | htransient
  · simp [ClassField.isProperty, hentry] at hproperty
  · simp [ClassField.isProperty, htransient] at hproperty

theorem Scope.EnhancesTo.agrees {s : Scope} {outcome : Scope × Report}
    (h : s.EnhancesTo naming outcome) : ScopeAgrees naming s outcome.1 := by
  intro front declared back hsplit hunique hfresh written hwritten
  obtain ⟨classes, hclasses, hfault, rfl⟩ := Scope.enhancesTo_iff.mp h
  obtain ⟨d, hd, rfl⟩ := map_eq_ok.mp hwritten
  obtain ⟨hoptions, c, hc, hnames⟩ := Description.ofStruct_agrees hd s.path
  have hcount := count_fresh_eq_one hclasses hsplit hunique hfresh
  have hstruct : .struct declared ∈ s.items := by
    rw [hsplit]
    exact List.mem_append_cons_self
  have hmem := mem_fresh_of_isFresh hclasses hstruct hfresh hc
  have hlast : back.any (isStructNamed declared.name) = false := by
    rw [List.any_eq_false]
    intro item hitem
    simp [hunique item (List.mem_append_right front hitem)]
  have hmarked := Description.ofStruct_marked hd 1
  refine ⟨c, hc, ?_, ?_, ?_, ?_, ?_⟩
  · rw [hsplit, getElem?_enhancedItems classes hlast, hcount]
  · refine ⟨d.options, hoptions, ?_⟩
    rw [structOptions_ofAttributes_marked, hoptions]
    simp [Except.map, StructOptions.afterMarks]
  · refine ⟨_, _, hmarked, map_eq_ok.mpr ⟨_, hmarked, rfl⟩, ?_⟩
    rw [← hnames]
    apply Generated.generated_says
    simp [StructOptions.afterMarks]
  · rw [← (ofStruct_names hc).1] at hcount ⊢
    exact setters_tell hcount hmem hfault
  · intro hdistinct field hfield hnot
    exact EntityClass.not_mem_propertyNames hdistinct hfield hnot

/-- Wherever items are enhanced, each entity that is enhanced there agrees with the code that is generated
for it. -/
theorem enhanced_entities_agree {path : String} {items after : List Item} {report : Report}
    (h : (enhanceItems naming path items).result = .ok (after, report)) :
    List.Forall₂ (ScopeAgrees naming) (scopesIn path items) (scopesIn path after) := by
  obtain ⟨outcomes, hall, hscopes, -⟩ := enhanceItems_scopes h
  rw [hscopes, List.forall₂_map_right_iff]
  exact hall.imp fun s outcome hscope => hscope.agrees

/-- Whether the first item is an entity struct that is not marked yet, with a name of its own, for which
code is generated. -/
def startsFresh : List Item → Bool
  | .struct declared :: back =>
    decide ((∀ item ∈ back.map outer, isStructNamed declared.name item = false) ∧
      IsFresh declared) && (Candidate.struct declared).generated.isOk
  | _ => false

/-- A note agrees with the code that is generated for it. -/
theorem note_agrees :
    ∃ program declared back after report, Program.ofText? Sample.note = some program ∧
      program.items = .struct declared :: back ∧
      (enhanceItems {} "" program.items).result = .ok (after, report) ∧
      report.enhanced = [("Note", ["text"])] ∧
      ∃ c, EntityClass.ofStruct declared "" = .ok c ∧
        EntityAgrees {} ⟨"", program.items.map outer⟩ ⟨"", after.map outer⟩ 0 declared c := by
  have hreport : ((Program.ofText? Sample.note).map fun program =>
      (enhanceItems {} "" program.items).result.map fun outcome => outcome.2.enhanced) =
      some (.ok [("Note", ["text"])]) := by
    decide +kernel
  have hread : (Program.ofText? Sample.note).any (startsFresh ·.items) = true := by
    decide +kernel
  obtain ⟨program, hsource, hread⟩ := (Option.any_eq_true _ _).mp hread
  rw [hsource, Option.map_some] at hreport
  obtain ⟨⟨after, report⟩, hrun, henhanced⟩ := map_eq_ok.mp (Option.some.inj hreport)
  unfold startsFresh at hread
  split at hread
  · rename_i declared back hitems
    rw [Bool.and_eq_true, decide_eq_true_eq] at hread
    obtain ⟨⟨hunique, hfresh⟩, hok⟩ := hread
    obtain ⟨written, hwritten⟩ := isOk_iff.mp hok
    refine ⟨program, declared, back, after, report, hsource, hitems, hrun, henhanced, ?_⟩
    have hsplit : program.items.map outer = [] ++ .struct declared :: back.map outer := by
      rw [hitems]
      rfl
    -- The scope of the items themselves is the last one.
    have hscopes := List.forall₂_reverse_iff.mpr (enhanced_entities_agree hrun)
    rw [scopesIn, scopesIn, List.reverse_append, List.reverse_append] at hscopes
    have hscope := (List.forall₂_cons.mp hscopes).1
    exact hscope [] declared _ hsplit hunique hfresh written hwritten
  · cases hread

end Enhance

end Chronicle
