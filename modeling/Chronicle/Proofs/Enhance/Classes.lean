import Chronicle.Proofs.Enhance.Scopes

/-!
# The classes of a scope

What enhancing a scope does to its items: the methods of each class without the mark are replaced one by
one, and the last struct with the name of such a class gets one mark for each class of that name.

## Implementation notes

Classes are enhanced one after another, but what happens to a method depends on signatures only and no
signature is ever changed. So every class can be judged by the items as they were at first, which is why
`Scope.getters` reads the items of the scope before the run.
-/

namespace Chronicle

namespace Source

/-- A struct with the mark of an enhanced class, several times. -/
def Struct.marked (declared : Struct) (times : Nat) : Struct :=
  { declared with attributes := declared.attributes ++ List.replicate times Enhance.enhancedMark }

@[simp] theorem Struct.marked_name (declared : Struct) (times : Nat) :
    (declared.marked times).name = declared.name := rfl

@[simp] theorem Struct.marked_zero (declared : Struct) : declared.marked 0 = declared := by
  simp [marked]

theorem Struct.marked_marked (declared : Struct) (first second : Nat) :
    (declared.marked first).marked second = declared.marked (first + second) := by
  simp [marked]

end Source

namespace Enhance

open Source

/-! ## Marks -/

/-- Items in which the last struct of each name has as many marks as the name occurs in a list. -/
def withMarks (names : List String) : List Item → List Item
  | [] => []
  | .struct declared :: items =>
    .struct (declared.marked
      (if items.any (isStructNamed declared.name) then 0 else names.count declared.name)) ::
      withMarks names items
  | item :: items => item :: withMarks names items

theorem any_structNamed_withMarks (names : List String) (name : String) (items : List Item) :
    (withMarks names items).any (isStructNamed name) = items.any (isStructNamed name) := by
  induction items with
  | nil => rfl
  | cons item items ih =>
      cases item with
      | struct declared =>
          simp only [withMarks, List.any_cons, ih]
          rfl
      | _ => simp only [withMarks, List.any_cons, ih]

theorem withMarks_nil (items : List Item) : withMarks [] items = items := by
  induction items with
  | nil => rfl
  | cons item items ih => cases item <;> simp [withMarks, ih]

theorem withMarks_append (first second : List String) (items : List Item) :
    withMarks second (withMarks first items) = withMarks (first ++ second) items := by
  induction items with
  | nil => rfl
  | cons item items ih =>
      cases item with
      | struct declared =>
          simp only [withMarks, any_structNamed_withMarks, Struct.marked_name, Struct.marked_marked, ih,
            List.count_append]
          split <;> rfl
      | _ => simp only [withMarks, ih]

theorem withMarks_of_unnamed {name : String} {items : List Item}
    (h : items.any (isStructNamed name) = false) : withMarks [name] items = items := by
  induction items with
  | nil => rfl
  | cons item items ih =>
      rw [List.any_cons, Bool.or_eq_false_iff] at h
      cases item with
      | struct declared =>
          have hne : name ≠ declared.name := by
            intro heq
            simp [isStructNamed, heq] at h
          simp [withMarks, ih h.2, hne]
      | _ => simp only [withMarks, ih h.2]

theorem markStruct_eq (name : String) (items : List Item) :
    markStruct name items = withMarks [name] items := by
  induction items with
  | nil => rfl
  | cons item items ih =>
      cases item with
      | struct declared =>
          rw [markStruct, withMarks, ih]
          by_cases hname : declared.name = name
          · by_cases hlater : items.any (isStructNamed name) = true
            · simp [hname, hlater]
            · have hnone : items.any (isStructNamed name) = false := by simpa using hlater
              simp [hname, hnone, withMarks_of_unnamed hnone, Struct.marked]
          · have hcount : [name].count declared.name = 0 := by
              simp [Ne.symm hname]
            by_cases hlater : items.any (isStructNamed name) = true
            · simp [hcount, hlater]
            · have hnone : items.any (isStructNamed name) = false := by simpa using hlater
              simp [hcount, hname, hnone, withMarks_of_unnamed hnone]
      | _ => simp only [markStruct, withMarks, ih, ite_self]

/-! ## Methods -/

/-- A member with the method that it is replaced. -/
def mapMember (f : Method → Method) : Member → Member
  | .method m => .method (f m)
  | other => other

/-- An implementation with the methods in it replaced, if they are the own methods of a type. -/
def replaceInBlock (name : String) (f : Method → Method) (block : ImplBlock) : ImplBlock :=
  if isOwnImpl block name then { block with members := block.members.map (mapMember f) } else block

/-- An item with the own methods of a type in it replaced. -/
def replaceIn (name : String) (f : Method → Method) : Item → Item
  | .implementation block => .implementation (replaceInBlock name f block)
  | item => item

theorem replaceMethods_eq (name : String) (f : Method → Method) (items : List Item) :
    replaceMethods name f items = items.map (replaceIn name f) := by
  apply List.map_congr_left
  intro item _
  cases item with
  | implementation block =>
      simp only [replaceIn, replaceInBlock]
      split <;> rfl
  | _ => rfl

theorem isOwnImpl_replaceInBlock (name own : String) (f : Method → Method) (block : ImplBlock) :
    isOwnImpl (replaceInBlock own f block) name = isOwnImpl block name := by
  rw [replaceInBlock]
  split <;> rfl

theorem filterMap_mapMember (f : Method → Method) (members : List Member) :
    (members.map (mapMember f)).filterMap Member.method? =
      (members.filterMap Member.method?).map f := by
  induction members with
  | nil => rfl
  | cons member members ih =>
      cases member <;>
        simp only [List.map_cons, mapMember, List.filterMap_cons, Member.method?, ih]

theorem methods_replaceInBlock (name : String) (f : Method → Method) (block : ImplBlock) :
    (replaceInBlock name f block).methods =
      if isOwnImpl block name then block.methods.map f else block.methods := by
  rw [replaceInBlock]
  split
  · exact filterMap_mapMember f block.members
  · rfl

theorem any_structNamed_map_replaceIn (name own : String) (f : Method → Method) (items : List Item) :
    (items.map (replaceIn own f)).any (isStructNamed name) = items.any (isStructNamed name) := by
  rw [List.any_map]
  congr 1
  funext item
  cases item <;> rfl

/-- Marks and methods do not meet. -/
theorem map_replaceIn_withMarks (own : String) (f : Method → Method) (names : List String)
    (items : List Item) :
    (withMarks names items).map (replaceIn own f) = withMarks names (items.map (replaceIn own f)) := by
  induction items with
  | nil => rfl
  | cons item items ih =>
      cases item <;>
        simp only [withMarks, List.map_cons, replaceIn, ih, any_structNamed_map_replaceIn]

theorem ownMethods_withMarks (name : String) (names : List String) (items : List Item) :
    ownMethods name (withMarks names items) = ownMethods name items := by
  induction items with
  | nil => rfl
  | cons item items ih =>
      rw [ownMethods] at ih
      cases item <;> simp only [withMarks, ownMethods, List.flatMap_cons, ih]

/-- The own methods of a type in an item. -/
def methodsIn (name : String) : Item → List Method
  | .implementation block => if isOwnImpl block name then block.methods else []
  | _ => []

theorem ownMethods_eq (name : String) (items : List Item) :
    ownMethods name items = items.flatMap (methodsIn name) := rfl

/-- An implementation holds the own methods of one type only. -/
theorem eq_of_isOwnImpl {block : ImplBlock} {name other : String} (h : isOwnImpl block name = true)
    (hother : isOwnImpl block other = true) : name = other := by
  simp only [isOwnImpl, Bool.and_eq_true, decide_eq_true_eq] at h hother
  exact Option.some.inj (h.2.symm.trans hother.2)

theorem methodsIn_replaceIn (name own : String) (f : Method → Method) (item : Item) :
    methodsIn name (replaceIn own f item) =
      if name = own then (methodsIn name item).map f else methodsIn name item := by
  cases item with
  | implementation block =>
      simp only [replaceIn, methodsIn, isOwnImpl_replaceInBlock, methods_replaceInBlock]
      by_cases hname : isOwnImpl block name = true
      · by_cases heq : name = own
        · simp only [← heq, if_pos hname, if_true]
        · have hown : ¬isOwnImpl block own = true := fun hown => heq (eq_of_isOwnImpl hname hown)
          simp only [if_pos hname, if_neg hown, if_neg heq]
      · simp only [if_neg hname, List.map_nil, ite_self]
  | _ => simp [replaceIn, methodsIn]

theorem ownMethods_replaceIn (name own : String) (f : Method → Method) (items : List Item) :
    ownMethods name (items.map (replaceIn own f)) =
      if name = own then (ownMethods name items).map f else ownMethods name items := by
  simp only [ownMethods_eq, List.flatMap_map, methodsIn_replaceIn]
  split
  · rw [List.map_flatMap]
  · rfl

/-! ## Signatures -/

/-- Whether the methods of each type have the same signatures among some items and among others. -/
def SameSignatures (items others : List Item) : Prop :=
  ∀ name, (ownMethods name items).map Method.signature = (ownMethods name others).map Method.signature

theorem enhanceMethod_signature (naming : Naming) (c : EntityClass) (getters : Getters) (m : Method) :
    (enhanceMethod naming c getters m).signature = m.signature := by
  unfold enhanceMethod narrow
  have hbody : (carryOut m (judge naming c getters m)).signature = m.signature := by
    unfold carryOut
    split <;> rfl
  split <;> exact hbody

theorem judge_congr (naming : Naming) (c : EntityClass) (getters : Getters) {m other : Method}
    (h : m.signature = other.signature) : judge naming c getters m = judge naming c getters other := by
  unfold judge setterField? argumentType? Method.arguments Method.name
  rw [h]

theorem addGetter_congr (naming : Naming) (c : EntityClass) (getters : Getters) {m other : Method}
    (h : m.signature = other.signature) :
    addGetter naming c getters m = addGetter naming c getters other := by
  unfold addGetter isGetter Method.arguments Method.name
  rw [h]

theorem gettersOf_congr (naming : Naming) (c : EntityClass) {methods others : List Method}
    (h : methods.map Method.signature = others.map Method.signature) :
    gettersOf naming c methods = gettersOf naming c others := by
  unfold gettersOf
  generalize ([] : Getters) = getters
  induction methods generalizing others getters with
  | nil =>
      obtain rfl : others = [] := by simpa using h.symm
      rfl
  | cons m methods ih =>
      obtain ⟨other, rest, rfl, hfirst, hrest⟩ := List.map_eq_cons_iff.mp h.symm
      rw [List.foldl_cons, List.foldl_cons, addGetter_congr naming c getters hfirst.symm]
      exact ih hrest.symm _

/-! ## One class -/

/-- What is said about the methods of a class among items. -/
def verdictsAmong (naming : Naming) (items : List Item) (c : EntityClass) : List Verdict :=
  (ownMethods c.name items).map (judge naming c (gettersOf naming c (ownMethods c.name items)))

/-- The method of an enhanced class in the place of a given one, if the class is among items. -/
def rewriteMethod (naming : Naming) (items : List Item) (c : EntityClass) : Method → Method :=
  enhanceMethod naming c (gettersOf naming c (ownMethods c.name items))

/-- What classes among items make of an implementation, one after another. -/
def rewriteBlock (naming : Naming) (items : List Item) : List EntityClass → ImplBlock → ImplBlock
  | [], block => block
  | c :: classes, block =>
    rewriteBlock naming items classes (replaceInBlock c.name (rewriteMethod naming items c) block)

/-- What classes among items make of an item. -/
def rewriteItem (naming : Naming) (items : List Item) (classes : List EntityClass) : Item → Item
  | .implementation block => .implementation (rewriteBlock naming items classes block)
  | item => item

theorem rewriteItem_nil (naming : Naming) (items : List Item) : rewriteItem naming items [] = id := by
  funext item
  cases item <;> rfl

theorem rewriteItem_cons (naming : Naming) (items : List Item) (c : EntityClass)
    (classes : List EntityClass) :
    rewriteItem naming items (c :: classes) =
      rewriteItem naming items classes ∘ replaceIn c.name (rewriteMethod naming items c) := by
  funext item
  cases item <;> rfl

theorem rewritten_eq (naming : Naming) (c : EntityClass) (items : List Item) :
    rewritten naming c items =
      withMarks [c.name] (items.map (replaceIn c.name (rewriteMethod naming items c))) := by
  rw [rewritten, markStruct_eq, replaceMethods_eq, rewriteMethod]

theorem enhancedSetters_result (naming : Naming) (c : EntityClass) (items : List Item) :
    (enhancedSetters naming c (ownMethods c.name items)).result =
      match firstError? (verdictsAmong naming items c) with
      | some error => .error error
      | none => .ok (wrappedFields (verdictsAmong naming items c)) := by
  unfold enhancedSetters verdictsAmong
  split <;> simp_all

theorem sameSignatures_rewritten (naming : Naming) (c : EntityClass) (items : List Item) :
    SameSignatures (rewritten naming c items) items := by
  intro name
  rw [rewritten_eq, ownMethods_withMarks, ownMethods_replaceIn]
  split
  · rw [List.map_map]
    congr 1
    funext m
    exact enhanceMethod_signature naming c _ m
  · rfl

/-- The methods of an enhanced class stand in the places of the methods before. -/
theorem ownMethods_rewritten (naming : Naming) (c : EntityClass) (items : List Item) :
    ownMethods c.name (rewritten naming c items) =
      (ownMethods c.name items).map (rewriteMethod naming items c) := by
  rw [rewritten_eq, ownMethods_withMarks, ownMethods_replaceIn, if_pos rfl]

/-- Enhancing a class without the mark fails with the first error about its methods, or rewrites all of
them. -/
theorem enhanceClass_unmarked (naming : Naming) {c : EntityClass} (items : List Item)
    (h : c.options.settersEnhanced = false) :
    (enhanceClass naming c items).result =
      match firstError? (verdictsAmong naming items c) with
      | some error => .error error
      | none => .ok (rewritten naming c items,
          { enhanced := [(c.displayName, wrappedFields (verdictsAmong naming items c))] }) := by
  rw [enhanceClass_result, h, if_neg Bool.false_ne_true, enhancedSetters_result]
  cases firstError? (verdictsAmong naming items c) <;> rfl

theorem enhanceClass_eq_ok {naming : Naming} {c : EntityClass} {items after : List Item}
    {report : Report} (h : c.options.settersEnhanced = false) :
    (enhanceClass naming c items).result = .ok (after, report) ↔
      firstError? (verdictsAmong naming items c) = none ∧ after = rewritten naming c items ∧
        report = { enhanced := [(c.displayName, wrappedFields (verdictsAmong naming items c))] } := by
  rw [enhanceClass_unmarked naming items h]
  cases firstError? (verdictsAmong naming items c) <;> simp [eq_comm]

theorem verdictsAmong_congr (naming : Naming) {items others : List Item}
    (h : SameSignatures items others) (c : EntityClass) :
    verdictsAmong naming items c = verdictsAmong naming others c := by
  have hjudge : judge naming c (gettersOf naming c (ownMethods c.name items)) =
      fun m => judge naming c (gettersOf naming c (ownMethods c.name others)) m := by
    rw [gettersOf_congr naming c (h c.name)]
  have hmethods : ∀ methods rest : List Method, methods.map Method.signature = rest.map Method.signature →
      methods.map (judge naming c (gettersOf naming c (ownMethods c.name others))) =
        rest.map (judge naming c (gettersOf naming c (ownMethods c.name others))) := by
    intro methods rest hsame
    induction methods generalizing rest with
    | nil =>
        obtain rfl : rest = [] := by simpa using hsame.symm
        rfl
    | cons m methods ih =>
        obtain ⟨other, rest, rfl, hfirst, hrest⟩ := List.map_eq_cons_iff.mp hsame.symm
        rw [List.map_cons, List.map_cons, judge_congr naming c _ hfirst.symm, ih rest hrest.symm]
  rw [verdictsAmong, hjudge, hmethods _ _ (h c.name), verdictsAmong]

theorem rewriteMethod_congr (naming : Naming) {items others : List Item}
    (h : SameSignatures items others) (c : EntityClass) :
    rewriteMethod naming items c = rewriteMethod naming others c := by
  rw [rewriteMethod, gettersOf_congr naming c (h c.name), rewriteMethod]

theorem rewriteItem_congr (naming : Naming) {items others : List Item}
    (h : SameSignatures items others) (classes : List EntityClass) :
    rewriteItem naming items classes = rewriteItem naming others classes := by
  induction classes with
  | nil => rw [rewriteItem_nil, rewriteItem_nil]
  | cons c classes ih => rw [rewriteItem_cons, rewriteItem_cons, ih, rewriteMethod_congr naming h]

theorem map_rewriteItem_withMarks (naming : Naming) (items : List Item) (classes : List EntityClass)
    (names : List String) (others : List Item) :
    (withMarks names others).map (rewriteItem naming items classes) =
      withMarks names (others.map (rewriteItem naming items classes)) := by
  induction classes generalizing others with
  | nil => rw [rewriteItem_nil, List.map_id, List.map_id]
  | cons c classes ih =>
      rw [rewriteItem_cons, ← List.map_map, map_replaceIn_withMarks, ih, List.map_map]

/-! ## All classes of a scope -/

/-- The classes without the mark. -/
def fresh (classes : List EntityClass) : List EntityClass :=
  classes.filter fun c => !c.options.settersEnhanced

/-- What is reported about classes, given their wrapped setters. -/
def reportOf (setters : EntityClass → List String) (classes : List EntityClass) : Report :=
  ⟨(fresh classes).map fun c => (c.displayName, setters c),
    (classes.filter (·.options.settersEnhanced)).map EntityClass.displayName⟩

/-- Items with several classes enhanced: each class is judged by the items as they were at first. -/
def enhancedItems (naming : Naming) (classes : List EntityClass) (items : List Item) : List Item :=
  withMarks ((fresh classes).map EntityClass.name) (items.map (rewriteItem naming items (fresh classes)))

/-- The first error about the methods of classes among items. -/
def firstFault? (naming : Naming) (classes : List EntityClass) (items : List Item) :
    Option EnhanceError :=
  (fresh classes).findSome? fun c => firstError? (verdictsAmong naming items c)

theorem enhanceClasses_marked (naming : Naming) {c : EntityClass} (classes : List EntityClass)
    (items : List Item) (h : c.options.settersEnhanced = true) :
    (enhanceClasses naming (c :: classes) items {}).result =
      (enhanceClasses naming classes items {}).result.map fun (after, own) =>
        (after, Report.append { skipped := [c.displayName] } own) := by
  simp only [enhanceClasses, Noted.bind_result, enhanceClass_result, h, if_true, Report.empty_append]
  exact enhanceClasses_report naming classes items _

theorem enhanceClasses_fresh (naming : Naming) {c : EntityClass} (classes : List EntityClass)
    (items : List Item) (h : c.options.settersEnhanced = false) :
    (enhanceClasses naming (c :: classes) items {}).result =
      match firstError? (verdictsAmong naming items c) with
      | some error => .error error
      | none =>
        (enhanceClasses naming classes (rewritten naming c items) {}).result.map fun (after, own) =>
          (after, Report.append
            { enhanced := [(c.displayName, wrappedFields (verdictsAmong naming items c))] } own) := by
  simp only [enhanceClasses, Noted.bind_result, enhanceClass_result, h, Bool.false_eq_true, if_false,
    enhancedSetters_result, Report.empty_append]
  cases firstError? (verdictsAmong naming items c) with
  | some error => rfl
  | none => exact enhanceClasses_report naming classes (rewritten naming c items) _

/-- Enhancing the first class changes nothing about what the others make of the items. -/
theorem enhancedItems_rewritten (naming : Naming) {c : EntityClass} (classes : List EntityClass)
    (items : List Item) (h : c.options.settersEnhanced = false) :
    enhancedItems naming classes (rewritten naming c items) =
      enhancedItems naming (c :: classes) items := by
  have hfresh : fresh (c :: classes) = c :: fresh classes := by simp [fresh, h]
  have hitems := rewriteItem_congr naming (sameSignatures_rewritten naming c items) (fresh classes)
  rw [enhancedItems, enhancedItems, hfresh, hitems, rewriteItem_cons, rewritten_eq,
    map_rewriteItem_withMarks, withMarks_append, List.map_map]
  rfl

theorem firstFault?_rewritten (naming : Naming) (c : EntityClass) (classes : List EntityClass)
    (items : List Item) :
    firstFault? naming classes (rewritten naming c items) = firstFault? naming classes items := by
  rw [firstFault?, firstFault?]
  congr 1
  funext other
  rw [verdictsAmong_congr naming (sameSignatures_rewritten naming c items)]

/-- The outcome of enhancing classes, told without looking at what happens between two of them. -/
theorem enhanceClasses_result (naming : Naming) (classes : List EntityClass) (items : List Item) :
    (enhanceClasses naming classes items {}).result =
      match firstFault? naming classes items with
      | some error => .error error
      | none => .ok (enhancedItems naming classes items,
          reportOf (fun c => wrappedFields (verdictsAmong naming items c)) classes) := by
  induction classes generalizing items with
  | nil => simp [enhanceClasses, firstFault?, enhancedItems, fresh, rewriteItem_nil, withMarks_nil, reportOf]
  | cons c classes ih =>
      cases hmarked : c.options.settersEnhanced with
      | true =>
          have hfresh : fresh (c :: classes) = fresh classes := by simp [fresh, hmarked]
          rw [enhanceClasses_marked naming classes items hmarked, ih, firstFault?, firstFault?,
            enhancedItems, enhancedItems, hfresh]
          cases (fresh classes).findSome? fun c => firstError? (verdictsAmong naming items c) with
          | some error => rfl
          | none => simp [Except.map, Report.append, reportOf, hfresh, hmarked]
      | false =>
          have hfresh : fresh (c :: classes) = c :: fresh classes := by simp [fresh, hmarked]
          have hverdicts : verdictsAmong naming (rewritten naming c items) =
              verdictsAmong naming items :=
            funext (verdictsAmong_congr naming (sameSignatures_rewritten naming c items))
          have hfault : firstFault? naming (c :: classes) items =
              (firstError? (verdictsAmong naming items c)).or (firstFault? naming classes items) := by
            rw [firstFault?, hfresh, List.findSome?_cons, firstFault?]
            cases firstError? (verdictsAmong naming items c) <;> rfl
          rw [enhanceClasses_fresh naming classes items hmarked, ih, hfault, hverdicts,
            enhancedItems_rewritten naming classes items hmarked, firstFault?_rewritten]
          cases firstError? (verdictsAmong naming items c) with
          | some error => rfl
          | none =>
              cases firstFault? naming classes items with
              | some error => rfl
              | none => simp [Except.map, Report.append, reportOf, hfresh, hmarked]

/-! ## The implementations of a scope -/

/-- The implementation that an item is, if it is one. -/
def block? : Item → Option ImplBlock
  | .implementation block => some block
  | _ => none

/-- The implementations among items. -/
def blocksOf (items : List Item) : List ImplBlock := items.filterMap block?

theorem mem_blocksOf {items : List Item} {block : ImplBlock} :
    block ∈ blocksOf items ↔ .implementation block ∈ items := by
  rw [blocksOf, List.mem_filterMap]
  constructor
  · rintro ⟨item, hmem, hblock⟩
    cases item <;> cases hblock
    exact hmem
  · intro hmem
    exact ⟨_, hmem, rfl⟩

theorem ownMethods_eq_flatMap_blocksOf (name : String) (items : List Item) :
    ownMethods name items =
      (blocksOf items).flatMap fun block => if isOwnImpl block name then block.methods else [] := by
  induction items with
  | nil => rfl
  | cons item items ih =>
      rw [ownMethods_eq] at ih ⊢
      rw [List.flatMap_cons, ih]
      cases item <;> rfl

theorem mem_ownMethods {name : String} {items : List Item} {block : ImplBlock} {m : Method}
    (hblock : block ∈ blocksOf items) (hown : isOwnImpl block name = true) (hm : m ∈ block.methods) :
    m ∈ ownMethods name items := by
  rw [ownMethods_eq_flatMap_blocksOf, List.mem_flatMap]
  refine ⟨block, hblock, ?_⟩
  rwa [if_pos hown]

theorem blocksOf_withMarks (names : List String) (items : List Item) :
    blocksOf (withMarks names items) = blocksOf items := by
  induction items with
  | nil => rfl
  | cons item items ih =>
      rw [blocksOf] at ih
      cases item <;> simp only [withMarks, blocksOf, List.filterMap_cons, block?, ih]

theorem blocksOf_enhancedItems (naming : Naming) (classes : List EntityClass) (items : List Item) :
    blocksOf (enhancedItems naming classes items) =
      (blocksOf items).map (rewriteBlock naming items (fresh classes)) := by
  rw [enhancedItems, blocksOf_withMarks, blocksOf, blocksOf, List.filterMap_map,
    List.map_filterMap]
  congr 1
  funext item
  cases item <;> rfl

theorem rewriteBlock_of_not_own (naming : Naming) (items : List Item) {classes : List EntityClass}
    {block : ImplBlock} (h : ∀ c ∈ classes, ¬isOwnImpl block c.name = true) :
    rewriteBlock naming items classes block = block := by
  induction classes with
  | nil => rfl
  | cons c classes ih =>
      obtain ⟨hfirst, hrest⟩ := List.forall_mem_cons.mp h
      rw [rewriteBlock, replaceInBlock, if_neg hfirst, ih hrest]

/-- Where no other class has the name of a class, its implementations are rewritten for it only. -/
theorem rewriteBlock_of_own (naming : Naming) (items : List Item) {classes : List EntityClass}
    {block : ImplBlock} {c : EntityClass} (hcount : (classes.map EntityClass.name).count c.name = 1)
    (hmem : c ∈ classes) (hown : isOwnImpl block c.name = true) :
    rewriteBlock naming items classes block =
      replaceInBlock c.name (rewriteMethod naming items c) block := by
  induction classes with
  | nil => cases hmem
  | cons first classes ih =>
      rw [List.map_cons, List.count_cons] at hcount
      rw [rewriteBlock]
      by_cases hname : first.name = c.name
      · have hnone : c.name ∉ classes.map EntityClass.name := by
          rw [← List.count_eq_zero]
          simpa [hname] using hcount
        rcases List.mem_cons.mp hmem with rfl | hlater
        · apply rewriteBlock_of_not_own
          intro other hother hsame
          rw [isOwnImpl_replaceInBlock] at hsame
          exact hnone (eq_of_isOwnImpl hown hsame ▸ List.mem_map_of_mem hother)
        · exact absurd (List.mem_map_of_mem hlater) hnone
      · have hlater : c ∈ classes := by
          rcases List.mem_cons.mp hmem with rfl | hlater
          · exact absurd rfl hname
          · exact hlater
        have hnot : ¬isOwnImpl block first.name = true := fun hsame =>
          hname (eq_of_isOwnImpl hsame hown)
        have hrest : (classes.map EntityClass.name).count c.name = 1 := by
          simpa [hname] using hcount
        rw [replaceInBlock, if_neg hnot, ih hrest hlater]

/-! ## Reading the classes of a scope -/

/-- The struct that an item is, if it derives an entity. -/
def entityStruct? : Item → Option Struct
  | .struct declared => if derivesEntity declared.attributes then some declared else none
  | _ => none

/-- The structs among items that derive an entity. -/
def entityStructs (items : List Item) : List Struct := items.filterMap entityStruct?

theorem mem_entityStructs {items : List Item} {declared : Struct} :
    declared ∈ entityStructs items ↔
      .struct declared ∈ items ∧ derivesEntity declared.attributes = true := by
  rw [entityStructs, List.mem_filterMap]
  constructor
  · rintro ⟨item, hmem, hitem⟩
    cases item with
    | struct other =>
        rw [entityStruct?, Option.ite_none_right_eq_some] at hitem
        obtain ⟨hentity, heq⟩ := hitem
        cases heq
        exact ⟨hmem, hentity⟩
    | _ => cases hitem
  · rintro ⟨hmem, hentity⟩
    exact ⟨.struct declared, hmem, by rw [entityStruct?, if_pos hentity]⟩

theorem entityStruct?_rewriteItem (naming : Naming) (items : List Item) (classes : List EntityClass)
    (item : Item) : entityStruct? (rewriteItem naming items classes item) = entityStruct? item := by
  cases item <;> rfl

theorem classesOf_eq_ok {path : String} {items : List Item} {classes : List EntityClass} :
    classesOf path items = .ok classes ↔
      List.Forall₂ (fun declared c => EntityClass.ofStruct declared path = .ok c)
        (entityStructs items) classes := by
  rw [classesOf, mapM_eq_ok]
  simp only [mapError_eq_ok]
  exact Iff.rfl

theorem ofStruct_names {declared : Struct} {path : String} {c : EntityClass}
    (h : EntityClass.ofStruct declared path = .ok c) :
    c.name = declared.name ∧ c.displayName = inModule path declared.name := by
  obtain ⟨options, -, h⟩ := bind_eq_ok.mp h
  obtain ⟨fields, -, h⟩ := bind_eq_ok.mp h
  cases h
  exact ⟨rfl, rfl⟩

/-- Whether a declared field is read as a field of a class. -/
structure FieldRead (declared : FieldDecl) (field : ClassField) : Prop where
  name : declared.name = some field.name
  type : declared.type = field.type
  options : FieldOptions.ofAttributes declared.attributes = .ok field.options

/-- The fields of a class are the declared ones that have a name, each with its options. -/
theorem readFields_eq_ok {fields : List FieldDecl} {read : List ClassField} :
    EntityClass.readFields fields = .ok read ↔
      List.Forall₂ FieldRead (fields.filter (·.name.isSome)) read := by
  rw [EntityClass.readFields, mapM_eq_ok]
  induction fields generalizing read with
  | nil => simp
  | cons declared fields ih =>
      rw [List.filterMap_cons, List.filter_cons]
      cases hname : declared.name with
      | none => simpa using ih
      | some name =>
          simp only [Option.map_some, Option.isSome_some, if_true, List.forall₂_cons_left_iff, ih]
          refine exists_congr fun field => exists_congr fun rest => and_congr_left fun _ => ?_
          constructor
          · intro h
            obtain ⟨options, hoptions, heq⟩ := bind_eq_ok.mp h
            cases heq
            exact ⟨hname, rfl, hoptions⟩
          · rintro ⟨hown, htype, hoptions⟩
            apply bind_eq_ok.mpr
            refine ⟨field.options, hoptions, ?_⟩
            cases hname.symm.trans hown
            rw [htype]
            rfl

theorem ofStruct_fields {declared : Struct} {path : String} {c : EntityClass}
    (h : EntityClass.ofStruct declared path = .ok c) :
    EntityClass.readFields declared.fields.list = .ok c.fields := by
  obtain ⟨options, -, h⟩ := bind_eq_ok.mp h
  obtain ⟨fields, hfields, h⟩ := bind_eq_ok.mp h
  cases h
  exact hfields

/-- The classes of a scope. -/
def Scope.classes (s : Scope) : Except EnhanceError (List EntityClass) := classesOf s.path s.items

/-- Classes bear the names of their structs. -/
theorem Scope.names_of_classes {s : Scope} {classes : List EntityClass} (h : s.classes = .ok classes) :
    classes.map EntityClass.name = (entityStructs s.items).map Struct.name := by
  replace h := classesOf_eq_ok.mp h
  generalize entityStructs s.items = structs at h ⊢
  induction h with
  | nil => rfl
  | cons hfirst _ ih => rw [List.map_cons, List.map_cons, (ofStruct_names hfirst).1, ih]

/-- What enhancing makes of a scope. -/
theorem Scope.enhancesTo_iff {naming : Naming} {s : Scope} {outcome : Scope × Report} :
    s.EnhancesTo naming outcome ↔
      ∃ classes, s.classes = .ok classes ∧ firstFault? naming classes s.items = none ∧
        outcome = (⟨s.path, enhancedItems naming classes s.items⟩,
          reportOf (fun c => wrappedFields (verdictsAmong naming s.items c)) classes) := by
  obtain ⟨⟨path, items⟩, report⟩ := outcome
  simp only [Scope.EnhancesTo, enhanceScope, Noted.bind_result, bind_eq_ok]
  constructor
  · rintro ⟨rfl, classes, hclasses, hrun⟩
    refine ⟨classes, hclasses, ?_⟩
    rw [enhanceClasses_result] at hrun
    cases hfault : firstFault? naming classes s.items with
    | some error => simp [hfault] at hrun
    | none =>
        rw [hfault] at hrun
        cases hrun
        exact ⟨rfl, rfl⟩
  · rintro ⟨classes, hclasses, hfault, heq⟩
    cases heq
    refine ⟨rfl, classes, hclasses, ?_⟩
    rw [enhanceClasses_result, hfault]

/-- The error of a scope: an option that cannot be read, or the first method that cannot be wrapped. -/
theorem Scope.fault?_eq (naming : Naming) (s : Scope) :
    s.fault? naming =
      match s.classes with
      | .error cause => some cause
      | .ok classes => firstFault? naming classes s.items := by
  simp only [Scope.fault?, enhanceScope, Noted.bind_result, Scope.classes, Noted.of]
  cases classesOf s.path s.items with
  | error cause => rfl
  | ok classes =>
      simp only [Except.bind, enhanceClasses_result]
      cases firstFault? naming classes s.items <;> rfl

end Enhance

end Chronicle
