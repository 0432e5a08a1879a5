import Chronicle.Sample.Types
import Chronicle.Tracking.Entity

/-!
# Setters of the sample types

## Implementation notes

Most setters assign their argument. The nickname of a pet is stripped of the blanks around it, and a
person takes no notice of a negative age.
-/

namespace Chronicle

namespace Sample

/-- A text without the blanks at both of its ends. -/
def stripped (text : String) : String :=
  let rest := text.toList.dropWhile (· = ' ')
  String.ofList ((rest.reverse.dropWhile (· = ' ')).reverse)

/-- Assigns a nickname without the blanks around it. -/
def assignNickname (o : Object) : Value → Object
  | .scalar (.text nickname) => o.assign "nickname" (.scalar (.text (stripped nickname)))
  | nothing => o.assign "nickname" nothing

/-- Assigns an age unless it is negative. -/
def assignAge (o : Object) : Value → Object
  | .scalar (.int years) => if years < 0 then o else o.assign "age" (.scalar (.int years))
  | nothing => o.assign "age" nothing

/-- What a setter of some attributes does other than to assign its argument. -/
def bodyOf? (structName attr : String) : Option (Object → Value → Object) :=
  match structName, attr with
  | "Pet", "nickname" => some assignNickname
  | "Person", "age" => some assignAge
  | _, _ => none

/-- The attributes whose setters notify listeners. -/
def notifying : String → List String
  | "Owner" => ["name"]
  | "VipOwner" => ["level"]
  | "Pet" => ["nickname", "owner"]
  | "Household" => ["pets", "walkers"]
  | "Person" =>
    ["name", "age", "city", "owner", "pets", "work", "address", "deleted_at", "created_by"]
  | "Numbers" => ["a64", "b64", "f4", "f8", "flag"]
  | "Doc" => ["title", "deleted"]
  | "Ghost" => ["label"]
  | "Vault" => ["closure", "note"]
  | "Session" => ["started", "token"]
  | "Settings" => ["theme"]
  | "Gadget" => ["label"]
  | "Manual" => ["name"]
  | _ => []

/-- The attributes whose setters notify nobody. -/
def silent : String → List String
  | "Person" => ["label_cache"]
  | "Settings" => ["scratch"]
  | "Gadget" => ["size"]
  | "Plain" => ["title"]
  | _ => []

/-- The name of the setter of an attribute. -/
def setterName (structName attr : String) : String :=
  if structName = "Gadget" ∧ attr = "label" then "with_" ++ attr else "set_" ++ attr

/-- The setters of a sample type. -/
def setters (type : EntityType) : List Setter :=
  type.fields.filterMap fun field =>
    let notifies := (notifying type.structName).contains field.name
    if notifies || (silent type.structName).contains field.name then
      let setter := Setter.assigning (setterName type.structName field.name) field notifies
      some { setter with body := (bodyOf? type.structName field.name).getD setter.body }
    else none

/-- The setter of a sample type with a given name. -/
def setterNamed? (type : EntityType) (name : String) : Option Setter :=
  (setters type).find? (·.name = name)

end Sample

end Chronicle
