import Chronicle.Enhance.OptionList

/-!
# Options of entities

What the attributes of a struct and of its fields say about the entity: its names, the attribute that
marks it as deleted, and the flags of its fields.
-/

namespace Chronicle

namespace Enhance

open Source

/-- The name of the attributes that hold options of entities. -/
def entityAttribute : String := "entity"

/-- The option that marks a struct whose setters are enhanced. -/
def enhancedOption : String := "setters_enhanced"

/-- What the attributes of a struct say. -/
structure StructOptions where
  /-- The name of the entity, unless it is the struct's own. -/
  name : Option String := none
  /-- The name of the entity that this one replaces. -/
  replaces : Option String := none
  embeddable : Bool := false
  /-- The property that marks an object as deleted. -/
  softDelete : Option String := none
  /-- Whether only fields with the flag for it are tracked. -/
  annotatedOnly : Bool := false
  settersEnhanced : Bool := false
deriving DecidableEq, Repr

/-- What the attributes of a field say. -/
structure FieldOptions where
  entry : Bool := false
  id : Bool := false
  transient : Bool := false
  readOnly : Bool := false
  reference : Bool := false
  collection : Bool := false
  embedded : Bool := false
  property : Bool := false
deriving DecidableEq, Repr

namespace StructOptions

/-- The options with one more option taken into account. -/
def add (options : StructOptions) (option : Meta) : Except OptionError StructOptions :=
  let key := OptionList.key option
  let unknown : Except OptionError StructOptions := .error (.unknown entityAttribute key)
  match option.body with
  | .bare =>
    match key with
    | "embeddable" => .ok { options with embeddable := true }
    | "annotated_only" => .ok { options with annotatedOnly := true }
    | "setters_enhanced" => .ok { options with settersEnhanced := true }
    | _ => unknown
  | .value value => do
    let text ← OptionList.text value
    match key with
    | "name" => .ok { options with name := some text }
    | "replaces" => .ok { options with replaces := some text }
    | "soft_delete" => .ok { options with softDelete := some text }
    | _ => unknown
  | .arguments .. => .error .nested

/-- What the attributes of a struct say. -/
def ofAttributes (attributes : List Attribute) : Except OptionError StructOptions := do
  (← OptionList.ofAttributes entityAttribute attributes).foldlM add {}

end StructOptions

namespace FieldOptions

/-- The options with one more option taken into account. -/
def add (options : FieldOptions) (option : Meta) : Except OptionError FieldOptions :=
  match option.body with
  | .bare =>
    let key := OptionList.key option
    match key with
    | "entry" => .ok { options with entry := true }
    | "id" => .ok { options with id := true }
    | "transient" => .ok { options with transient := true }
    | "read_only" => .ok { options with readOnly := true }
    | "reference" => .ok { options with reference := true }
    | "collection" => .ok { options with collection := true }
    | "embedded" => .ok { options with embedded := true }
    | "property" => .ok { options with property := true }
    | _ => .error (.unknown entityAttribute key)
  | _ => .error .flagExpected

/-- What the attributes of a field say. -/
def ofAttributes (attributes : List Attribute) : Except OptionError FieldOptions := do
  (← OptionList.ofAttributes entityAttribute attributes).foldlM add {}

/-- The names of the flags that are set. -/
def names (options : FieldOptions) : List String :=
  [("entry", options.entry), ("id", options.id), ("transient", options.transient),
    ("read_only", options.readOnly), ("reference", options.reference),
    ("collection", options.collection), ("embedded", options.embedded),
    ("property", options.property)].filterMap fun (name, isSet) => if isSet then some name else none

end FieldOptions

/-- The last words of paths separated by commas, if tokens are such paths and nothing else. -/
def pathNames? (tokens : Tokens) : Option (List String) :=
  readAll?
    (fun meaning =>
      Reading.commaList .finish (Reading.phrase meaning .typePath))
    tokens
  |>.bind fun paths =>
    paths.mapM fun (path, _) => (TypeExpr.cut? (meaning path.length) path).map (·.name)

/-- Whether the attributes of a struct derive an entity. -/
def derivesEntity (attributes : List Attribute) : Bool :=
  (attributes.filter (·.name? = some "derive")).any fun a =>
    match a.said.body with
    | .arguments _ content => (pathNames? content).any (·.contains "Entity")
    | _ => false

/-- The attribute that marks a struct whose setters are enhanced. -/
def enhancedMark : Attribute where
  inner := false
  said :=
    { path := [.word entityAttribute]
      body := .arguments .paren [.word enhancedOption] }

end Enhance

end Chronicle
