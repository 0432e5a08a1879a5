import Chronicle.Enhance.Scope
import Mathlib.Data.List.Forall2

/-!
# Programs as scopes

A program is the list of its scopes: its own items and those of every module in it. Enhancing a program
enhances each of its scopes by itself, so that all other statements about enhancing speak of one scope.

## Implementation notes

Scopes stand in the order in which they are enhanced, a module's scope before the scope around it. In the
scope around it a module is left with its head only; the program can be put together again from its
scopes.
-/

namespace Chronicle

namespace Enhance

open Source

/-- An item as the scope around it sees it: a module without the items in it. -/
def outer : Item → Item
  | .module head _ => .module head []
  | item => item

/-- The items that stand beside one another in a program, and the path of the module around them. -/
structure Scope where
  path : String
  items : List Item

mutual

/-- The scopes in an item. -/
def itemScopes (path : String) : Item → List Scope
  | .module head items =>
    scopesOf (inModule path head.name) items ++ [⟨inModule path head.name, items.map outer⟩]
  | _ => []

/-- The scopes in items. -/
def scopesOf (path : String) : List Item → List Scope
  | [] => []
  | item :: items => itemScopes path item ++ scopesOf path items

end

/-- The scopes of a program. -/
def scopes (p : Program) : List Scope := scopesOf "" p.items ++ [⟨"", p.items.map outer⟩]

/-- The scopes of items that are given with the path of the module around them. -/
def scopesIn (path : String) (items : List Item) : List Scope :=
  scopesOf path items ++ [⟨path, items.map outer⟩]

/-! ## A program from its scopes -/

mutual

/-- Items are given by what the scope around them sees and by the scopes in them, also where other scopes
stand before these. The last item comes first, since its scopes are the last ones. -/
theorem eq_of_scopesOf {path : String} : ∀ (items others : List Item) (front back : List Scope),
    items.map outer = others.map outer →
    front ++ scopesOf path items = back ++ scopesOf path others → items = others ∧ front = back
  | [], others, front, back, houter, hscopes => by
    obtain rfl : others = [] := by simpa using houter.symm
    exact ⟨rfl, by simpa [scopesOf] using hscopes⟩
  | item :: items, others, front, back, houter, hscopes => by
    obtain ⟨other, rest, rfl, hitem, hitems⟩ := List.map_eq_cons_iff.mp houter.symm
    rw [scopesOf, scopesOf, ← List.append_assoc, ← List.append_assoc] at hscopes
    obtain ⟨rfl, hfront⟩ := eq_of_scopesOf items rest _ _ hitems.symm hscopes
    obtain ⟨rfl, rfl⟩ := eq_of_itemScopes item other front back hitem.symm hfront
    exact ⟨rfl, rfl⟩

theorem eq_of_itemScopes {path : String} : ∀ (item other : Item) (front back : List Scope),
    outer item = outer other →
    front ++ itemScopes path item = back ++ itemScopes path other → item = other ∧ front = back
  | .module head items, other, front, back, houter, hscopes => by
    cases other with
    | module head' others =>
        obtain rfl : head = head' := by simpa [outer] using houter
        rw [itemScopes, itemScopes, ← List.append_assoc, ← List.append_assoc] at hscopes
        obtain ⟨hscopes, hlast⟩ := List.append_inj' hscopes rfl
        have hitems : items.map outer = others.map outer := by simpa using hlast
        obtain ⟨rfl, rfl⟩ := eq_of_scopesOf items others _ _ hitems hscopes
        exact ⟨rfl, rfl⟩
    | _ => simp [outer] at houter
  | .outline head, other, front, back, houter, hscopes => by
    cases other <;> simp_all [outer, itemScopes]
  | .struct declared, other, front, back, houter, hscopes => by
    cases other <;> simp_all [outer, itemScopes]
  | .implementation block, other, front, back, houter, hscopes => by
    cases other <;> simp_all [outer, itemScopes]
  | .other tokens, other, front, back, houter, hscopes => by
    cases other <;> simp_all [outer, itemScopes]

end

/-- Nothing but its attributes and its scopes makes up a program. -/
theorem eq_of_scopes {p q : Program} (hattributes : p.attributes = q.attributes)
    (hscopes : scopes p = scopes q) : p = q := by
  obtain ⟨hscopes, hlast⟩ := List.append_inj' hscopes rfl
  have hitems : p.items.map outer = q.items.map outer := by simpa using hlast
  obtain ⟨hitems, -⟩ := eq_of_scopesOf p.items q.items [] [] hitems (by simpa using hscopes)
  cases p
  cases q
  simp_all

/-! ## Runs -/

theorem bind_eq_ok {ε α β : Type} {run : Except ε α} {next : α → Except ε β} {result : β} :
    run.bind next = .ok result ↔ ∃ value, run = .ok value ∧ next value = .ok result := by
  cases run <;> simp [Except.bind]

theorem isOk_iff {ε α : Type} {run : Except ε α} : run.isOk = true ↔ ∃ value, run = .ok value := by
  cases run <;> simp [Except.isOk, Except.toBool]

theorem map_eq_ok {ε α β : Type} {run : Except ε α} {f : α → β} {result : β} :
    run.map f = .ok result ↔ ∃ value, run = .ok value ∧ f value = result := by
  cases run <;> simp [Except.map]

theorem mapM_eq_ok {ε α β : Type} {f : α → Except ε β} {values : List α} {results : List β} :
    values.mapM f = .ok results ↔ List.Forall₂ (fun value result => f value = .ok result) values results := by
  induction values generalizing results with
  | nil => simp [pure, Except.pure, eq_comm]
  | cons value values ih =>
      rw [List.mapM_cons, List.forall₂_cons_left_iff]
      constructor
      · intro h
        obtain ⟨first, hfirst, h⟩ := bind_eq_ok.mp h
        obtain ⟨rest, hrest, h⟩ := bind_eq_ok.mp h
        cases h
        exact ⟨first, rest, hfirst, ih.mp hrest, rfl⟩
      · rintro ⟨first, rest, hfirst, hrest, rfl⟩
        exact bind_eq_ok.mpr ⟨first, hfirst, bind_eq_ok.mpr ⟨rest, ih.mpr hrest, rfl⟩⟩

theorem mapError_eq_ok {ε ε' α : Type} {run : Except ε α} {f : ε → ε'} {result : α} :
    run.mapError f = .ok result ↔ run = .ok result := by
  cases run <;> simp [Except.mapError]

namespace Report

@[simp] theorem append_empty (r : Report) : r.append {} = r := by
  simp [append]

@[simp] theorem empty_append (r : Report) : append {} r = r := by
  simp [append]

theorem append_assoc (r s t : Report) : (r.append s).append t = r.append (s.append t) := by
  simp [append]

/-- Reports one after another. -/
def concat (reports : List Report) : Report :=
  ⟨reports.flatMap enhanced, reports.flatMap skipped⟩

theorem concat_append (front back : List Report) :
    concat (front ++ back) = (concat front).append (concat back) := by
  simp [concat, append]

end Report

/-- Items with the setters of a class wrapped and its struct marked. -/
def rewritten (naming : Naming) (c : EntityClass) (items : List Item) : List Item :=
  markStruct c.name
    (replaceMethods c.name (enhanceMethod naming c (gettersOf naming c (ownMethods c.name items))) items)

theorem enhanceClass_result (naming : Naming) (c : EntityClass) (items : List Item) :
    (enhanceClass naming c items).result =
      if c.options.settersEnhanced then .ok (items, { skipped := [c.displayName] })
      else (enhancedSetters naming c (ownMethods c.name items)).result.map fun fields =>
        (rewritten naming c items, { enhanced := [(c.displayName, fields)] }) := by
  unfold enhanceClass
  by_cases h : c.options.settersEnhanced
  · simp [h]
  · simp only [h, Bool.false_eq_true, if_false, Noted.bind_result, Noted.pure_result]
    cases (enhancedSetters naming c (ownMethods c.name items)).result <;> rfl

/-! ## Enhancing sees no item of a module -/

theorem structNamed_outer (name : String) (item : Item) :
    isStructNamed name (outer item) = isStructNamed name item := by
  cases item <;> rfl

theorem ownMethods_outer (name : String) (items : List Item) :
    ownMethods name (items.map outer) = ownMethods name items := by
  rw [ownMethods, ownMethods, List.flatMap_map]
  congr 1
  funext item
  cases item <;> rfl

theorem replaceMethods_outer (name : String) (f : Method → Method) (items : List Item) :
    replaceMethods name f (items.map outer) = (replaceMethods name f items).map outer := by
  rw [replaceMethods, replaceMethods, List.map_map, List.map_map]
  congr 1
  funext item
  cases item with
  | implementation block =>
      simp only [Function.comp_apply, outer]
      split <;> rfl
  | _ => rfl

theorem markStruct_outer (name : String) (items : List Item) :
    markStruct name (items.map outer) = (markStruct name items).map outer := by
  induction items with
  | nil => rfl
  | cons item items ih =>
      have hany : (items.map outer).any (isStructNamed name) = items.any (isStructNamed name) := by
        simp [List.any_map, Function.comp_def, structNamed_outer]
      cases item with
      | struct declared =>
          simp only [List.map_cons, outer, markStruct, hany, ih]
          split
          · rfl
          · split <;> rfl
      | _ =>
          simp only [List.map_cons, outer, markStruct, hany, ih]
          split <;> rfl

theorem classesOf_outer (path : String) (items : List Item) :
    classesOf path (items.map outer) = classesOf path items := by
  rw [classesOf, classesOf, List.filterMap_map]
  congr 2
  funext item
  cases item <;> rfl

theorem rewritten_outer (naming : Naming) (c : EntityClass) (items : List Item) :
    rewritten naming c (items.map outer) = (rewritten naming c items).map outer := by
  rw [rewritten, ownMethods_outer, replaceMethods_outer, markStruct_outer, rewritten]

theorem enhanceClass_outer (naming : Naming) (c : EntityClass) (items : List Item) :
    (enhanceClass naming c (items.map outer)).result =
      (enhanceClass naming c items).result.map fun (items, report) => (items.map outer, report) := by
  rw [enhanceClass_result, enhanceClass_result, ownMethods_outer, rewritten_outer]
  split
  · rfl
  · cases (enhancedSetters naming c (ownMethods c.name items)).result <;> rfl

/-- What was done before the classes of a scope is reported in front of them. -/
theorem enhanceClasses_report (naming : Naming) (classes : List EntityClass) (items : List Item)
    (report : Report) :
    (enhanceClasses naming classes items report).result =
      (enhanceClasses naming classes items {}).result.map fun (items, own) =>
        (items, report.append own) := by
  induction classes generalizing items report with
  | nil => simp [enhanceClasses, Except.map]
  | cons c classes ih =>
      simp only [enhanceClasses, Noted.bind_result]
      cases (enhanceClass naming c items).result with
      | error cause => rfl
      | ok step =>
          simp only [Except.bind, Report.empty_append]
          rw [ih, ih step.1 step.2]
          cases (enhanceClasses naming classes step.1 {}).result <;>
            simp [Except.map, Report.append_assoc]

theorem enhanceClasses_outer (naming : Naming) (classes : List EntityClass) (items : List Item)
    (report : Report) :
    (enhanceClasses naming classes (items.map outer) report).result =
      (enhanceClasses naming classes items report).result.map fun (items, report) =>
        (items.map outer, report) := by
  induction classes generalizing items report with
  | nil => rfl
  | cons c classes ih =>
      simp only [enhanceClasses, Noted.bind_result, enhanceClass_outer]
      cases (enhanceClass naming c items).result with
      | error cause => rfl
      | ok step => exact ih step.1 _

theorem enhanceScope_outer (naming : Naming) (path : String) (items : List Item) (report : Report) :
    (enhanceScope naming path (items.map outer) report).result =
      (enhanceScope naming path items report).result.map fun (items, report) =>
        (items.map outer, report) := by
  simp only [enhanceScope, Noted.bind_result, classesOf_outer]
  cases hclasses : classesOf path items with
  | error cause => rfl
  | ok classes => exact enhanceClasses_outer naming classes items report

theorem enhanceScope_report (naming : Naming) (path : String) (items : List Item) (report : Report) :
    (enhanceScope naming path items report).result =
      (enhanceScope naming path items {}).result.map fun (items, own) =>
        (items, report.append own) := by
  simp only [enhanceScope, Noted.bind_result]
  cases hclasses : classesOf path items with
  | error cause => rfl
  | ok classes => exact enhanceClasses_report naming classes items report

theorem scopesOf_replaceMethods (path name : String) (f : Method → Method) (items : List Item) :
    scopesOf path (replaceMethods name f items) = scopesOf path items := by
  induction items with
  | nil => rfl
  | cons item items ih =>
      rw [replaceMethods, List.map_cons, scopesOf, scopesOf]
      congr 1
      cases item with
      | implementation block =>
          simp only
          split <;> rfl
      | _ => rfl

theorem scopesOf_markStruct (path name : String) (items : List Item) :
    scopesOf path (markStruct name items) = scopesOf path items := by
  induction items with
  | nil => rfl
  | cons item items ih =>
      cases item with
      | struct declared =>
          simp only [markStruct]
          split
          · simp only [scopesOf, ih]
          · split <;> rfl
      | _ => simp only [markStruct, scopesOf, ih, ite_self]

/-- Modules are left alone where the classes of the scope around them are enhanced. -/
theorem scopesOf_enhanceScope {naming : Naming} {path : String} {items items' : List Item}
    {report report' : Report}
    (h : (enhanceScope naming path items report).result = .ok (items', report')) :
    scopesOf path items' = scopesOf path items := by
  simp only [enhanceScope, Noted.bind_result] at h
  obtain ⟨classes, -, hrun⟩ := bind_eq_ok.mp h
  clear h
  induction classes generalizing items report with
  | nil =>
      cases hrun
      rfl
  | cons c classes ih =>
      simp only [enhanceClasses, Noted.bind_result] at hrun
      obtain ⟨⟨next, own⟩, hclass, hrun⟩ := bind_eq_ok.mp hrun
      rw [ih hrun]
      rw [enhanceClass_result] at hclass
      split at hclass
      · cases hclass
        rfl
      · obtain ⟨fields, -, hnext⟩ := map_eq_ok.mp hclass
        cases hnext
        rw [rewritten, scopesOf_markStruct, scopesOf_replaceMethods]

/-! ## A run over all scopes -/

/-- Whether a scope that is enhanced by itself becomes the given one, with the given report. -/
def Scope.EnhancesTo (naming : Naming) (s : Scope) (outcome : Scope × Report) : Prop :=
  outcome.1.path = s.path ∧
    (enhanceScope naming s.path s.items {}).result = .ok (outcome.1.items, outcome.2)

/-- Whether scopes that are enhanced by themselves become others, with one report of all. -/
def EnhanceTo (naming : Naming) (before after : List Scope) (report : Report) : Prop :=
  ∃ outcomes : List (Scope × Report), List.Forall₂ (Scope.EnhancesTo naming) before outcomes ∧
    after = outcomes.map Prod.fst ∧ report = Report.concat (outcomes.map Prod.snd)

theorem EnhanceTo.nil (naming : Naming) : EnhanceTo naming [] [] {} :=
  ⟨[], .nil, rfl, rfl⟩

theorem EnhanceTo.append {naming : Naming} {before after before' after' : List Scope}
    {report report' : Report} (h : EnhanceTo naming before after report)
    (h' : EnhanceTo naming before' after' report') :
    EnhanceTo naming (before ++ before') (after ++ after') (report.append report') := by
  obtain ⟨outcomes, hall, rfl, rfl⟩ := h
  obtain ⟨outcomes', hall', rfl, rfl⟩ := h'
  refine ⟨outcomes ++ outcomes', List.rel_append hall hall', ?_, ?_⟩
  · rw [List.map_append]
  · rw [List.map_append, Report.concat_append]

/-- A scope in which the modules have been enhanced before. -/
theorem EnhanceTo.scope {naming : Naming} {path : String} {items next items' : List Item}
    {nested report : Report} (houter : next.map outer = items.map outer)
    (h : (enhanceScope naming path next nested).result = .ok (items', report)) :
    ∃ own, report = nested.append own ∧
      EnhanceTo naming [⟨path, items.map outer⟩] [⟨path, items'.map outer⟩] own := by
  rw [enhanceScope_report] at h
  obtain ⟨⟨_, own⟩, hown, heq⟩ := map_eq_ok.mp h
  cases heq
  refine ⟨own, rfl, [(⟨path, items'.map outer⟩, own)], .cons ⟨rfl, ?_⟩ .nil, rfl, ?_⟩
  · show (enhanceScope naming path (items.map outer) {}).result = _
    rw [← houter, enhanceScope_outer, hown]
    rfl
  · simp [Report.concat]

mutual

/-- Enhancing an item enhances each scope in it by itself. -/
theorem enhanceItem_scopes {naming : Naming} {path : String} : ∀ {item item' : Item} {report : Report},
    (enhanceItem naming path item).result = .ok (item', report) →
    outer item' = outer item ∧
      EnhanceTo naming (itemScopes path item) (itemScopes path item') report
  | .module head items, item', report, h => by
    simp only [enhanceItem, Noted.bind_result] at h
    obtain ⟨⟨next, nested⟩, hmodules, h⟩ := bind_eq_ok.mp h
    obtain ⟨⟨items', all⟩, hscope, h⟩ := bind_eq_ok.mp h
    cases h
    obtain ⟨houter, hnested⟩ := enhanceModules_scopes hmodules
    obtain ⟨own, rfl, hown⟩ := EnhanceTo.scope houter hscope
    refine ⟨rfl, ?_⟩
    rw [itemScopes, itemScopes, scopesOf_enhanceScope hscope]
    exact hnested.append hown
  | .outline head, _, _, h => by
    cases h
    exact ⟨rfl, .nil naming⟩
  | .struct declared, _, _, h => by
    cases h
    exact ⟨rfl, .nil naming⟩
  | .implementation block, _, _, h => by
    cases h
    exact ⟨rfl, .nil naming⟩
  | .other tokens, _, _, h => by
    cases h
    exact ⟨rfl, .nil naming⟩

theorem enhanceModules_scopes {naming : Naming} {path : String} :
    ∀ {items items' : List Item} {report : Report},
    (enhanceModules naming path items).result = .ok (items', report) →
    items'.map outer = items.map outer ∧
      EnhanceTo naming (scopesOf path items) (scopesOf path items') report
  | [], _, _, h => by
    cases h
    exact ⟨rfl, .nil naming⟩
  | item :: items, _, _, h => by
    simp only [enhanceModules, Noted.bind_result] at h
    obtain ⟨⟨item', first⟩, hitem, h⟩ := bind_eq_ok.mp h
    obtain ⟨⟨items', others⟩, hitems, h⟩ := bind_eq_ok.mp h
    cases h
    obtain ⟨houter, hfirst⟩ := enhanceItem_scopes hitem
    obtain ⟨houters, hothers⟩ := enhanceModules_scopes hitems
    refine ⟨by rw [List.map_cons, List.map_cons, houter, houters], ?_⟩
    exact hfirst.append hothers

end

/-- Enhancing items enhances each of their scopes by itself. -/
theorem enhanceItems_scopes {naming : Naming} {path : String} {items after : List Item}
    {report : Report} (h : (enhanceItems naming path items).result = .ok (after, report)) :
    EnhanceTo naming (scopesIn path items) (scopesIn path after) report := by
  simp only [enhanceItems, Noted.bind_result] at h
  obtain ⟨⟨next, nested⟩, hmodules, hscope⟩ := bind_eq_ok.mp h
  obtain ⟨houter, hnested⟩ := enhanceModules_scopes hmodules
  obtain ⟨own, rfl, hown⟩ := EnhanceTo.scope houter hscope
  rw [scopesIn, scopesIn, scopesOf_enhanceScope hscope]
  exact hnested.append hown

/-- Enhancing a program enhances each of its scopes by itself. -/
theorem enhanceProgram_scopes {naming : Naming} {program enhanced : Program} {report : Report}
    (h : (enhanceProgram naming program).result = .ok (enhanced, report)) :
    enhanced.attributes = program.attributes ∧
      EnhanceTo naming (scopes program) (scopes enhanced) report := by
  simp only [enhanceProgram, Noted.bind_result] at h
  obtain ⟨⟨after, all⟩, hitems, heq⟩ := bind_eq_ok.mp h
  cases heq
  exact ⟨rfl, enhanceItems_scopes hitems⟩

/-! ## The first error -/

/-- The error that ends a run, if one does. -/
def fault? {α : Type} : Except EnhanceError α → Option EnhanceError
  | .ok _ => none
  | .error cause => some cause

theorem fault?_eq_none_iff {α : Type} {run : Except EnhanceError α} :
    fault? run = none ↔ ∃ value, run = .ok value := by
  cases run <;> simp [fault?]

theorem fault?_map {α β : Type} (run : Except EnhanceError α) (f : α → β) :
    fault? (run.map f) = fault? run := by
  cases run <;> rfl

/-- The error that a scope ends with if it is enhanced by itself. -/
def Scope.fault? (naming : Naming) (s : Scope) : Option EnhanceError :=
  Enhance.fault? (enhanceScope naming s.path s.items {}).result

theorem fault?_enhanceScope (naming : Naming) (path : String) {items next : List Item}
    (houter : next.map outer = items.map outer) (nested : Report) :
    fault? (enhanceScope naming path next nested).result =
      Scope.fault? naming ⟨path, items.map outer⟩ := by
  rw [enhanceScope_report, fault?_map, Scope.fault?, ← houter, enhanceScope_outer, fault?_map]

mutual

/-- The error of a run over an item is that of the first scope in it with one. -/
theorem fault?_enhanceItem (naming : Naming) (path : String) : ∀ item : Item,
    fault? (enhanceItem naming path item).result =
      (itemScopes path item).findSome? (Scope.fault? naming)
  | .module head items => by
    have hitems := fault?_enhanceModules naming (inModule path head.name) items
    rw [itemScopes, List.findSome?_append, ← hitems, List.findSome?_singleton]
    simp only [enhanceItem, Noted.bind_result]
    cases hmodules : (enhanceModules naming (inModule path head.name) items).result with
    | error cause => rfl
    | ok step =>
        have hscope := fault?_enhanceScope naming (inModule path head.name)
          (enhanceModules_scopes hmodules).1 step.2
        simp only [Except.bind, fault?, Option.none_or, ← hscope]
        cases (enhanceScope naming (inModule path head.name) step.1 step.2).result <;> rfl
  | .outline _ | .struct _ | .implementation _ | .other _ => rfl

theorem fault?_enhanceModules (naming : Naming) (path : String) : ∀ items : List Item,
    fault? (enhanceModules naming path items).result =
      (scopesOf path items).findSome? (Scope.fault? naming)
  | [] => rfl
  | item :: items => by
    have hitem := fault?_enhanceItem naming path item
    have hitems := fault?_enhanceModules naming path items
    rw [scopesOf, List.findSome?_append, ← hitem, ← hitems]
    simp only [enhanceModules, Noted.bind_result]
    cases (enhanceItem naming path item).result with
    | error cause => rfl
    | ok first => cases (enhanceModules naming path items).result <;> rfl

end

/-- The error of a run over a program is that of the first scope with one. -/
theorem fault?_enhanceProgram (naming : Naming) (p : Program) :
    fault? (enhanceProgram naming p).result = (scopes p).findSome? (Scope.fault? naming) := by
  rw [scopes, List.findSome?_append, ← fault?_enhanceModules, List.findSome?_singleton]
  simp only [enhanceProgram, enhanceItems, Noted.bind_result]
  cases hmodules : (enhanceModules naming "" p.items).result with
  | error cause => rfl
  | ok step =>
      have hscope := fault?_enhanceScope naming "" (enhanceModules_scopes hmodules).1 step.2
      simp only [Except.bind, fault?, Option.none_or, ← hscope]
      cases (enhanceScope naming "" step.1 step.2).result <;> rfl

/-- A run over a text is a run over the program that it writes. -/
theorem enhanceText_eq_ok {naming : Naming} {source origin output : String} {report : Report} :
    (enhanceText naming source origin).result = .ok (output, report) ↔
      ∃ program enhanced, Program.ofText? source = some program ∧
        (enhanceProgram naming program).result = .ok (enhanced, report) ∧ output = enhanced.text := by
  unfold enhanceText
  cases Program.ofText? source with
  | none => simp [Noted.of]
  | some program =>
      simp only [Noted.bind_result, bind_eq_ok]
      constructor
      · rintro ⟨⟨enhanced, _⟩, hrun, heq⟩
        cases heq
        exact ⟨program, enhanced, rfl, hrun, rfl⟩
      · rintro ⟨_, enhanced, heq, hrun, rfl⟩
        cases heq
        exact ⟨(enhanced, report), hrun, rfl⟩

theorem fault?_enhanceText {source : String} {program : Program}
    (h : Program.ofText? source = some program) (naming : Naming) (origin : String) :
    fault? (enhanceText naming source origin).result =
      fault? (enhanceProgram naming program).result := by
  simp only [enhanceText, h, Noted.bind_result]
  cases (enhanceProgram naming program).result <;> rfl

end Enhance

end Chronicle
