import Chronicle.Proofs.Enhance.Classes

/-!
# What marks say

A struct with the mark of an enhanced class declares the class it declared before, now enhanced. After a
run over a scope all its classes are enhanced, unless a struct without the mark stands before another
struct of the same name: the mark was set at that other one.
-/

namespace Chronicle

namespace Enhance

open Source

/-! ## Marks among attributes -/

/-- Options after some marks of an enhanced class. -/
def StructOptions.afterMarks (options : StructOptions) (times : Nat) : StructOptions :=
  { options with settersEnhanced := options.settersEnhanced || decide (0 < times) }

/-- A class after some marks at its struct. -/
def EntityClass.afterMarks (c : EntityClass) (times : Nat) : EntityClass :=
  { c with options := c.options.afterMarks times }

theorem ofMeta_enhancedMark :
    OptionList.ofMeta entityAttribute enhancedMark.said =
      .ok [{ path := [.word enhancedOption], body := .bare }] := by
  rfl

theorem optionList_ofAttributes_mark (attributes : List Attribute) :
    OptionList.ofAttributes entityAttribute (attributes ++ [enhancedMark]) =
      (OptionList.ofAttributes entityAttribute attributes).map
        (· ++ [{ path := [.word enhancedOption], body := .bare }]) := by
  have hmark : [enhancedMark].filter (·.name? = some entityAttribute) = [enhancedMark] := rfl
  simp only [OptionList.ofAttributes, List.filter_append, hmark, List.mapM_append, List.mapM_cons,
    List.mapM_nil, ofMeta_enhancedMark]
  cases (attributes.filter (·.name? = some entityAttribute)).mapM
      fun a => OptionList.ofMeta entityAttribute a.said with
  | error cause => rfl
  | ok lists => exact congrArg Except.ok (by simp)

/-- One mark sets one option. -/
theorem structOptions_ofAttributes_mark (attributes : List Attribute) :
    StructOptions.ofAttributes (attributes ++ [enhancedMark]) =
      (StructOptions.ofAttributes attributes).map fun options =>
        { options with settersEnhanced := true } := by
  rw [StructOptions.ofAttributes, optionList_ofAttributes_mark, StructOptions.ofAttributes]
  cases OptionList.ofAttributes entityAttribute attributes with
  | error cause => rfl
  | ok said =>
      change (said ++ [_]).foldlM StructOptions.add {} =
        (said.foldlM StructOptions.add {}).map fun options =>
          { options with settersEnhanced := true }
      rw [List.foldlM_append]
      cases said.foldlM StructOptions.add {} with
      | error cause => rfl
      | ok options => rfl

theorem structOptions_ofAttributes_marked (declared : Struct) (times : Nat) :
    StructOptions.ofAttributes (declared.marked times).attributes =
      (StructOptions.ofAttributes declared.attributes).map (·.afterMarks times) := by
  induction times with
  | zero =>
      rw [Struct.marked_zero]
      cases StructOptions.ofAttributes declared.attributes <;>
        simp [Except.map, StructOptions.afterMarks]
  | succ times ih =>
      have hattributes : (declared.marked (times + 1)).attributes =
          (declared.marked times).attributes ++ [enhancedMark] := by
        simp [Struct.marked, List.replicate_succ']
      rw [hattributes, structOptions_ofAttributes_mark, ih]
      cases StructOptions.ofAttributes declared.attributes <;>
        simp [Except.map, StructOptions.afterMarks]

theorem ofStruct_marked (declared : Struct) (times : Nat) (path : String) :
    EntityClass.ofStruct (declared.marked times) path =
      (EntityClass.ofStruct declared path).map (·.afterMarks times) := by
  simp only [EntityClass.ofStruct, structOptions_ofAttributes_marked]
  cases StructOptions.ofAttributes declared.attributes with
  | error cause => rfl
  | ok options =>
      change (EntityClass.readFields declared.fields.list).bind _ =
        ((EntityClass.readFields declared.fields.list).bind _).map _
      cases EntityClass.readFields declared.fields.list <;> rfl

/-- A mark derives nothing. -/
theorem derivesEntity_marked (declared : Struct) (times : Nat) :
    derivesEntity (declared.marked times).attributes = derivesEntity declared.attributes := by
  have hmarks : (List.replicate times enhancedMark).filter (·.name? = some "derive") = [] := by
    apply List.filter_eq_nil_iff.mpr
    intro mark hmem
    rw [List.eq_of_mem_replicate hmem]
    decide
  rw [derivesEntity, derivesEntity, Struct.marked, List.filter_append, hmarks, List.append_nil]

/-! ## Where the mark is set -/

/-- Whether a struct is an entity without the mark. -/
def IsFresh (declared : Struct) : Prop :=
  derivesEntity declared.attributes = true ∧
    (StructOptions.ofAttributes declared.attributes).map (·.settersEnhanced) = .ok false

/-- Whether an item is an entity without the mark and a later one is a struct with its name. -/
def Shadowed : Item → Item → Prop
  | .struct declared, later => IsFresh declared ∧ isStructNamed declared.name later = true
  | _, _ => False

/-- Whether no struct with the name of an entity without the mark stands after that entity. -/
def KeepsMarks (items : List Item) : Prop :=
  items.Pairwise fun item later => ¬Shadowed item later

instance : DecidablePred IsFresh := fun _ => inferInstanceAs (Decidable (_ ∧ _))

instance : DecidableRel Shadowed
  | .struct _, _ => inferInstanceAs (Decidable (_ ∧ _))
  | .module .., _ | .outline _, _ | .implementation _, _ | .other _, _ =>
    inferInstanceAs (Decidable False)

instance : DecidablePred KeepsMarks := fun _ => inferInstanceAs (Decidable (List.Pairwise _ _))

theorem keepsMarks_struct_iff {declared : Struct} {items : List Item} :
    KeepsMarks (.struct declared :: items) ↔
      (IsFresh declared → items.any (isStructNamed declared.name) = false) ∧ KeepsMarks items := by
  rw [KeepsMarks, List.pairwise_cons, KeepsMarks]
  refine and_congr_left fun _ => ?_
  constructor
  · intro hitems hfresh
    rw [List.any_eq_false]
    intro later hlater hnamed
    exact hitems later hlater ⟨hfresh, hnamed⟩
  · rintro hfresh later hlater ⟨hentity, hnamed⟩
    exact List.any_eq_false.mp (hfresh hentity) later hlater hnamed

theorem keepsMarks_cons_iff {item : Item} {items : List Item}
    (h : ∀ declared, item ≠ .struct declared) : KeepsMarks (item :: items) ↔ KeepsMarks items := by
  rw [KeepsMarks, List.pairwise_cons, KeepsMarks, and_iff_right_iff_imp]
  intro _ later _ hshadowed
  cases item with
  | struct declared => exact h declared rfl
  | _ => exact hshadowed

theorem isFresh_iff {declared : Struct} {path : String} {c : EntityClass}
    (hentity : derivesEntity declared.attributes = true)
    (h : EntityClass.ofStruct declared path = .ok c) :
    IsFresh declared ↔ c.options.settersEnhanced = false := by
  obtain ⟨options, hoptions, h⟩ := bind_eq_ok.mp h
  obtain ⟨fields, -, h⟩ := bind_eq_ok.mp h
  cases h
  rw [IsFresh, hoptions]
  simp [hentity, Except.map]

/-- A class is enhanced after its marks just if no other struct took them. -/
theorem afterMarks_enhanced_iff {declared : Struct} {path : String} {c : EntityClass}
    {names : List String} {followed : Bool} (hentity : derivesEntity declared.attributes = true)
    (h : EntityClass.ofStruct declared path = .ok c)
    (hname : c.options.settersEnhanced = false → declared.name ∈ names) :
    (c.afterMarks (if followed then 0 else names.count declared.name)).options.settersEnhanced = true ↔
      (IsFresh declared → followed = false) := by
  rw [isFresh_iff hentity h, EntityClass.afterMarks, StructOptions.afterMarks]
  cases hold : c.options.settersEnhanced with
  | true => simp
  | false =>
      have hcount : names.count declared.name ≠ 0 := by
        simpa [List.count_eq_zero] using hname hold
      cases followed <;> simp [Nat.pos_iff_ne_zero, hcount]

theorem entityStructs_struct_pos {declared : Struct} {items : List Item}
    (h : derivesEntity declared.attributes = true) :
    entityStructs (.struct declared :: items) = declared :: entityStructs items := by
  simp [entityStructs, entityStruct?, h]

theorem entityStructs_struct_neg {declared : Struct} {items : List Item}
    (h : ¬derivesEntity declared.attributes = true) :
    entityStructs (.struct declared :: items) = entityStructs items := by
  simp [entityStructs, entityStruct?, h]

/-- The classes among items with marks: each is the class that it was before, and all are enhanced just
if the marks stand where they are looked for. -/
theorem classesOf_withMarks {path : String} {names : List String} {items : List Item}
    {classes : List EntityClass}
    (hnames : ∀ c ∈ classes, c.options.settersEnhanced = false → c.name ∈ names)
    (h : classesOf path items = .ok classes) :
    ∃ after, classesOf path (withMarks names items) = .ok after ∧
      after.map EntityClass.displayName = classes.map EntityClass.displayName ∧
      ((∀ c ∈ after, c.options.settersEnhanced = true) ↔ KeepsMarks items) := by
  rw [classesOf_eq_ok] at h
  simp only [classesOf_eq_ok]
  induction items generalizing classes with
  | nil =>
      cases h
      exact ⟨[], .nil, rfl, by simp [KeepsMarks]⟩
  | cons item items ih =>
      cases item with
      | struct declared =>
          rw [keepsMarks_struct_iff, withMarks]
          by_cases hentity : derivesEntity declared.attributes = true
          · rw [entityStructs_struct_pos hentity] at h
            obtain ⟨c, classes, hc, hclasses, rfl⟩ := List.forall₂_cons_left_iff.mp h
            obtain ⟨after, hafter, hdisplay, hmarked⟩ :=
              ih (fun c hmem => hnames c (List.mem_cons_of_mem _ hmem)) hclasses
            have hmem := hnames c List.mem_cons_self
            rw [(ofStruct_names hc).1] at hmem
            let count := if items.any (isStructNamed declared.name) then 0 else names.count declared.name
            refine ⟨c.afterMarks count :: after, ?_, ?_, ?_⟩
            · rw [entityStructs_struct_pos (by rwa [derivesEntity_marked])]
              refine .cons ?_ hafter
              rw [ofStruct_marked, hc]
              rfl
            · rw [List.map_cons, List.map_cons, hdisplay]
              rfl
            · rw [List.forall_mem_cons, afterMarks_enhanced_iff hentity hc hmem, hmarked]
          · rw [entityStructs_struct_neg hentity] at h
            obtain ⟨after, hafter, hdisplay, hmarked⟩ := ih hnames h
            refine ⟨after, ?_, hdisplay, ?_⟩
            · rwa [entityStructs_struct_neg (by rwa [derivesEntity_marked])]
            · rw [hmarked, iff_and_self]
              exact fun _ hfresh => absurd hfresh.1 hentity
      | _ =>
          rw [keepsMarks_cons_iff (by simp)]
          exact ih hnames h

/-- The classes of a scope after a run. -/
theorem classesOf_enhancedItems (naming : Naming) {path : String} {items : List Item}
    {classes : List EntityClass} (h : classesOf path items = .ok classes) :
    ∃ after, classesOf path (enhancedItems naming classes items) = .ok after ∧
      after.map EntityClass.displayName = classes.map EntityClass.displayName ∧
      ((∀ c ∈ after, c.options.settersEnhanced = true) ↔ KeepsMarks items) := by
  have hstructs : entityStructs (enhancedItems naming classes items) =
      entityStructs (withMarks ((fresh classes).map EntityClass.name) items) := by
    rw [enhancedItems, ← map_rewriteItem_withMarks, entityStructs, List.filterMap_map]
    congr 1
    funext item
    exact entityStruct?_rewriteItem naming items (fresh classes) item
  have hnames : ∀ c ∈ classes, c.options.settersEnhanced = false →
      c.name ∈ (fresh classes).map EntityClass.name := by
    intro c hmem hfresh
    exact List.mem_map_of_mem (List.mem_filter.mpr ⟨hmem, by simp [hfresh]⟩)
  obtain ⟨after, hafter, hrest⟩ := classesOf_withMarks hnames h
  refine ⟨after, ?_, hrest⟩
  rw [classesOf_eq_ok] at hafter ⊢
  rwa [hstructs]

/-! ## Names of entities without the mark -/

/-- The entities without the mark among items. -/
def freshStructs (items : List Item) : List Struct :=
  (entityStructs items).filter fun declared => decide (IsFresh declared)

theorem mem_freshStructs {items : List Item} {declared : Struct} :
    declared ∈ freshStructs items ↔ .struct declared ∈ items ∧ IsFresh declared := by
  rw [freshStructs, List.mem_filter, mem_entityStructs, decide_eq_true_eq, and_assoc]
  exact and_congr_right fun _ => and_iff_right_of_imp fun hfresh => hfresh.1

theorem fresh_names_eq {s : Scope} {classes : List EntityClass} (h : s.classes = .ok classes) :
    (fresh classes).map EntityClass.name = (freshStructs s.items).map Struct.name := by
  have hentity : ∀ declared ∈ entityStructs s.items, derivesEntity declared.attributes = true :=
    fun declared hmem => (mem_entityStructs.mp hmem).2
  replace h := classesOf_eq_ok.mp h
  rw [freshStructs]
  generalize entityStructs s.items = structs at h hentity ⊢
  induction h with
  | nil => rfl
  | @cons declared c structs classes hfirst _ ih =>
      obtain ⟨hown, hrest⟩ := List.forall_mem_cons.mp hentity
      have hiff := isFresh_iff hown hfirst
      rw [fresh] at ih ⊢
      rw [List.filter_cons, List.filter_cons]
      by_cases hfresh : IsFresh declared
      · simp [hfresh, hiff.mp hfresh, ih hrest, (ofStruct_names hfirst).1]
      · have hmarked : c.options.settersEnhanced = true := by
          simpa [hfresh] using hiff
        simp [hfresh, hmarked, ih hrest]

theorem freshStructs_append (front back : List Item) :
    freshStructs (front ++ back) = freshStructs front ++ freshStructs back := by
  rw [freshStructs, entityStructs, List.filterMap_append, List.filter_append]
  rfl

theorem freshStructs_singleton (declared : Struct) :
    freshStructs [.struct declared] = if IsFresh declared then [declared] else [] := by
  by_cases hentity : derivesEntity declared.attributes = true
  · rw [freshStructs, entityStructs_struct_pos hentity, List.filter_cons]
    simp [entityStructs]
  · have hnot : ¬IsFresh declared := fun hfresh => hentity hfresh.1
    rw [freshStructs, entityStructs_struct_neg hentity, if_neg hnot]
    rfl

/-- Where no other entity without the mark has the name of a struct, the name occurs once if the struct
itself is such an entity. -/
theorem count_freshStructs {front back : List Item} {declared : Struct}
    (h : ∀ item ∈ front ++ back, ¬Shadowed item (.struct declared)) :
    ((freshStructs (front ++ .struct declared :: back)).map Struct.name).count declared.name =
      if IsFresh declared then 1 else 0 := by
  have hnot : ∀ items : List Item, (∀ item ∈ items, ¬Shadowed item (.struct declared)) →
      ((freshStructs items).map Struct.name).count declared.name = 0 := by
    intro items hitems
    rw [List.count_eq_zero]
    intro hmem
    obtain ⟨other, hother, hname⟩ := List.mem_map.mp hmem
    obtain ⟨hitem, hfresh⟩ := mem_freshStructs.mp hother
    exact hitems _ hitem ⟨hfresh, by simp [isStructNamed, hname]⟩
  obtain ⟨hfront, hback⟩ := List.forall_mem_append.mp h
  rw [← List.singleton_append, freshStructs_append, freshStructs_append, freshStructs_singleton,
    List.map_append, List.map_append, List.count_append, List.count_append, hnot front hfront,
    hnot back hback]
  split <;> simp

end Enhance

end Chronicle
