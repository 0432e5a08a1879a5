import Chronicle.Enhance.OptionList

/-!
# Errors and notes

What can go wrong when setters are enhanced, and what is noted on the way.

## Implementation notes

Notes are kept also where an error ends the work, so that a run is a list of notes beside its result.
-/

namespace Chronicle

namespace Enhance

/-- What can go wrong when setters are enhanced. -/
inductive EnhanceError where
  /-- A tracked field has a type without a value for what is not set. -/
  | primitiveField (className field type : String)
  | missingGetter (className field : String)
  | invalidAttribute (className : String) (cause : OptionError)
  /-- The source is no program. -/
  | unreadable (origin : String)
deriving DecidableEq, Repr

namespace EnhanceError

/-- The message for an error; that of an unreadable source ends before the reader's own words. -/
def message : EnhanceError → String
  | .primitiveField className field type =>
    "Unable to enhance field " ++ className ++ "." ++ field ++ " with primitive type " ++ type ++
      ". Use type Option<" ++ type ++ ">."
  | .missingGetter className field =>
    "Unable to enhance field " ++ className ++ "." ++ field ++ ": getter `" ++ field ++
      "()` or `get_" ++ field ++ "()` not found"
  | .invalidAttribute className cause =>
    "Invalid #[entity] attribute on " ++ className ++ ": " ++ cause.message
  | .unreadable origin => "Failed to parse " ++ origin

/-- The name of an error's kind. -/
def kindName : EnhanceError → String
  | .primitiveField .. => "PrimitiveField"
  | .missingGetter .. => "MissingGetter"
  | .invalidAttribute .. => "Attribute"
  | .unreadable _ => "Parse"

/-- The class that an error is about. -/
def className? : EnhanceError → Option String
  | .primitiveField className _ _ => some className
  | .missingGetter className _ => some className
  | .invalidAttribute className _ => some className
  | .unreadable _ => none

end EnhanceError

/-- What is noted while setters are enhanced. -/
inductive Note where
  | untracked (className field : String)
  | alreadyEnhanced (className : String)
  | enhanced (className : String) (setters : Nat)
deriving DecidableEq, Repr

/-- A run: what was noted, and the result or the error that ended it. -/
structure Noted (α : Type) where
  notes : List Note
  result : Except EnhanceError α

namespace Noted

/-- A run with nothing to note. -/
def of {α : Type} (result : Except EnhanceError α) : Noted α := ⟨[], result⟩

/-- A run that goes on with its result. -/
def bind {α β : Type} (run : Noted α) (next : α → Noted β) : Noted β :=
  match run.result with
  | .ok value =>
    let rest := next value
    ⟨run.notes ++ rest.notes, rest.result⟩
  | .error e => ⟨run.notes, .error e⟩

instance : Monad Noted where
  pure value := ⟨[], .ok value⟩
  bind := bind

@[simp] theorem bind_result {α β : Type} (run : Noted α) (next : α → Noted β) :
    (run >>= next).result = run.result.bind fun value => (next value).result := by
  change (bind run next).result = _
  unfold bind
  cases run.result <;> rfl

@[simp] theorem pure_result {α : Type} (value : α) : (pure value : Noted α).result = .ok value :=
  rfl

end Noted

end Enhance

end Chronicle
