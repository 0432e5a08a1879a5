import Chronicle.Enhance.Setters
import Chronicle.Source.Item

/-!
# Scopes

Enhancing the setters of all entity classes among items: first in the modules among them, then in the
items' own scope.

## Implementation notes

All classes of a scope are read before the first one is enhanced. Where several structs have one name,
a class is enhanced together with the last of them.
-/

namespace Chronicle

namespace Enhance

open Source

/-- What was done to the classes of a program. -/
structure Report where
  /-- The enhanced classes with the fields of their wrapped setters. -/
  enhanced : List (String × List String) := []
  /-- Classes that were enhanced before. -/
  skipped : List String := []
deriving DecidableEq, Repr

namespace Report

/-- The setters of the first class with a given name. -/
def settersOf? (r : Report) (className : String) : Option (List String) :=
  r.enhanced.lookup className

/-- The number of wrapped setters. -/
def total (r : Report) : Nat := r.enhanced.foldl (fun n entry => n + entry.2.length) 0

/-- A report with another one after it. -/
def append (r s : Report) : Report := ⟨r.enhanced ++ s.enhanced, r.skipped ++ s.skipped⟩

end Report

/-- Whether an implementation holds the own methods of a type with the given name. -/
def isOwnImpl (b : ImplBlock) (name : String) : Bool :=
  b.trait.isEmpty && b.type.lastName? = some name

/-- The methods of a class among items. -/
def ownMethods (name : String) (items : List Item) : List Method :=
  items.flatMap fun
    | .implementation block => if isOwnImpl block name then block.methods else []
    | _ => []

/-- Items with the methods of a class replaced. -/
def replaceMethods (name : String) (f : Method → Method) (items : List Item) : List Item :=
  items.map fun
    | .implementation block =>
      if isOwnImpl block name then
        .implementation
          { block with members := block.members.map fun
              | .method m => .method (f m)
              | other => other }
      else .implementation block
    | item => item

/-- Whether an item is a struct with the given name. -/
def isStructNamed (name : String) : Item → Bool
  | .struct declared => declared.name = name
  | _ => false

/-- Items with the mark of an enhanced class at the last struct with the given name. -/
def markStruct (name : String) : List Item → List Item
  | [] => []
  | item :: items =>
    if items.any (isStructNamed name) then item :: markStruct name items
    else
      match item with
      | .struct declared =>
        if declared.name = name then
          .struct { declared with attributes := declared.attributes ++ [enhancedMark] } :: items
        else item :: items
      | _ => item :: markStruct name items

/-- Items with one class enhanced. -/
def enhanceClass (naming : Naming) (c : EntityClass) (items : List Item) :
    Noted (List Item × Report) :=
  if c.options.settersEnhanced then
    ⟨[.alreadyEnhanced c.displayName], .ok (items, { skipped := [c.displayName] })⟩
  else do
    let methods := ownMethods c.name items
    let fields ← enhancedSetters naming c methods
    let getters := gettersOf naming c methods
    return (markStruct c.name (replaceMethods c.name (enhanceMethod naming c getters) items),
      { enhanced := [(c.displayName, fields)] })

/-- The entity classes among items. -/
def classesOf (path : String) (items : List Item) : Except EnhanceError (List EntityClass) :=
  (items.filterMap fun
    | .struct declared => if derivesEntity declared.attributes then some declared else none
    | _ => none).mapM fun declared =>
      (EntityClass.ofStruct declared path).mapError
        (EnhanceError.invalidAttribute (inModule path declared.name))

/-- Items with several classes enhanced one after another. -/
def enhanceClasses (naming : Naming) : List EntityClass → List Item → Report →
    Noted (List Item × Report)
  | [], items, report => pure (items, report)
  | c :: classes, items, report => do
    let (items, own) ← enhanceClass naming c items
    enhanceClasses naming classes items (report.append own)

/-- Items with the classes of their own scope enhanced. -/
def enhanceScope (naming : Naming) (path : String) (items : List Item) (report : Report) :
    Noted (List Item × Report) := do
  let classes ← Noted.of (classesOf path items)
  enhanceClasses naming classes items report

mutual

/-- An item with the classes in it enhanced. -/
def enhanceItem (naming : Naming) (path : String) : Item → Noted (Item × Report)
  | .module head items => do
    let path := inModule path head.name
    let (items, nested) ← enhanceModules naming path items
    let (items, report) ← enhanceScope naming path items nested
    return (.module head items, report)
  | .outline head => pure (.outline head, {})
  | .struct declared => pure (.struct declared, {})
  | .implementation block => pure (.implementation block, {})
  | .other tokens => pure (.other tokens, {})

/-- Items with the classes in their modules enhanced. -/
def enhanceModules (naming : Naming) (path : String) : List Item → Noted (List Item × Report)
  | [] => pure ([], {})
  | item :: items => do
    let (item, first) ← enhanceItem naming path item
    let (items, others) ← enhanceModules naming path items
    return (item :: items, first.append others)

end

/-- Items with all classes enhanced. -/
def enhanceItems (naming : Naming) (path : String) (items : List Item) :
    Noted (List Item × Report) := do
  let (items, nested) ← enhanceModules naming path items
  enhanceScope naming path items nested

/-- A program with all classes enhanced. -/
def enhanceProgram (naming : Naming) (program : Program) : Noted (Program × Report) := do
  let (items, report) ← enhanceItems naming "" program.items
  return ({ program with items }, report)

/-- The text of a program with all classes enhanced, given the program's text. -/
def enhanceText (naming : Naming) (source origin : String) : Noted (String × Report) :=
  match Program.ofText? source with
  | none => .of (.error (.unreadable origin))
  | some program => do
    let (program, report) ← enhanceProgram naming program
    return (program.text, report)

end Enhance

end Chronicle
