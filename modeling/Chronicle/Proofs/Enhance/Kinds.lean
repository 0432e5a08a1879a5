import Chronicle.Enhance.Description
import Chronicle.Enhance.Text
import Mathlib.Tactic.SplitIfs

/-!
# Kinds of enclosed types

A type in parentheses, or one that is handed on as a whole, means what it encloses. The name of a
primitive type is found inside, but what a type makes optional and the kind of its values are not: they
are seen as long as nothing is enclosed on the way to what decides the kind.
-/

namespace Chronicle

namespace Enhance

open Source

/-- Whether a type is in parentheses or handed on as a whole. -/
def isEnclosed : TypeExpr → Bool
  | .paren _ => true
  | .bare _ => true
  | _ => false

/-- Whether a type is written as another one that differs from it by parentheses, and by parts that are
handed on as a whole: around the type itself, or around what it makes optional or lists. -/
inductive Encloses : TypeExpr → TypeExpr → Prop where
  | self {type : TypeExpr} : Encloses type type
  | paren {type written : TypeExpr} : Encloses type written → Encloses type (.paren written)
  | bare {type written : TypeExpr} : Encloses type written → Encloses type (.bare written)
  | argument {argument written : TypeExpr} {name : String} (front before after : Tokens) :
    name = "Option" ∨ name = "Vec" → Encloses argument written →
    Encloses (.applied front name before argument after) (.applied front name before written after)

/-- The kind of a value that is not optional. -/
def heldKind (held : TypeExpr) : PropertyKind :=
  match held.lastName? with
  | some "Arc" => .reference
  | some "EntitySet" => .collection
  | some "Vec" =>
    if (held.argument?.bind TypeExpr.lastName?) = some "Arc" then .collection else .scalar
  | _ => .scalar

/-- The types that decide the kind of what is held: the held type, and the items of a list. -/
def heldLayers (held : TypeExpr) : List TypeExpr :=
  held :: if held.lastName? = some "Vec" then held.argument?.toList else []

/-- The types that decide the kind of a type: itself, and those that decide what it holds. -/
def kindLayers (type : TypeExpr) : List TypeExpr :=
  type :: heldLayers ((unwrapOption? type).getD type)

theorem inferKind_eq (type : TypeExpr) :
    inferKind type = heldKind ((unwrapOption? type).getD type) := rfl

theorem lastName?_of_isEnclosed {type : TypeExpr} (h : isEnclosed type = true) :
    type.lastName? = none := by
  cases type <;> first | rfl | cases h

theorem unwrapOption?_of_isEnclosed {type : TypeExpr} (h : isEnclosed type = true) :
    unwrapOption? type = none := by
  rw [unwrapOption?, lastName?_of_isEnclosed h]
  rfl

theorem heldKind_of_isEnclosed {held : TypeExpr} (h : isEnclosed held = true) :
    heldKind held = .scalar := by
  rw [heldKind, lastName?_of_isEnclosed h]

namespace Encloses

variable {type written : TypeExpr}

/-- The name of a primitive type is found in whatever encloses it. -/
theorem primitiveName? (h : Encloses type written) :
    Enhance.primitiveName? written = Enhance.primitiveName? type := by
  induction h with
  | self => rfl
  | paren _ ih => exact ih
  | bare _ ih => exact ih
  | argument => rfl

theorem lastName? (h : Encloses type written) (hplain : isEnclosed written = false) :
    written.lastName? = type.lastName? := by
  cases h with
  | self => rfl
  | paren => cases hplain
  | bare => cases hplain
  | argument => rfl

/-- What a type makes optional is enclosed where the optional type is not. -/
theorem unwrapOption? (h : Encloses type written) (hplain : isEnclosed written = false) :
    Option.Rel Encloses (Enhance.unwrapOption? type) (Enhance.unwrapOption? written) := by
  cases h with
  | self =>
      cases Enhance.unwrapOption? type with
      | none => exact .none
      | some _ => exact .some .self
  | paren => cases hplain
  | bare => cases hplain
  | @argument argument written name front before after _ harg =>
      by_cases hname : name = "Option"
      · simp only [Enhance.unwrapOption?, TypeExpr.lastName?, TypeExpr.argument?, hname, if_true]
        exact .some harg
      · simp only [Enhance.unwrapOption?, TypeExpr.lastName?, Option.some.injEq, if_neg hname]
        exact .none

/-- The kind of what is held is seen unless a type that decides it is enclosed. -/
theorem heldKind (h : Encloses type written) :
    Enhance.heldKind written =
      if (heldLayers written).any isEnclosed then .scalar else Enhance.heldKind type := by
  by_cases hwritten : isEnclosed written = true
  · rw [if_pos (by simp [heldLayers, hwritten]), heldKind_of_isEnclosed hwritten]
  have hplain : isEnclosed written = false := Bool.eq_false_iff.mpr hwritten
  have hlast := h.lastName? hplain
  by_cases hvec : written.lastName? = some "Vec"
  · have hargument : ∃ argument? argument'? : Option TypeExpr, type.argument? = argument? ∧
        written.argument? = argument'? ∧ Option.Rel Encloses argument? argument'? := by
      cases h with
      | self =>
          refine ⟨_, _, rfl, rfl, ?_⟩
          cases type.argument? with
          | none => exact .none
          | some _ => exact .some .self
      | paren => cases hplain
      | bare => cases hplain
      | argument _ _ _ _ harg => exact ⟨_, _, rfl, rfl, .some harg⟩
    obtain ⟨_, _, htype, hother, hrel⟩ := hargument
    rw [Enhance.heldKind, Enhance.heldKind, heldLayers, ← hlast, hvec, htype, hother]
    cases hrel with
    | none => simp [hplain]
    | @some argument argument' harg =>
        by_cases henclosed : isEnclosed argument' = true
        · simp [hplain, henclosed, lastName?_of_isEnclosed henclosed]
        · rw [Bool.not_eq_true] at henclosed
          simp [hplain, henclosed, harg.lastName? henclosed]
  · rw [if_neg (by simp [heldLayers, hvec, hplain]), Enhance.heldKind, Enhance.heldKind, hlast]
    rw [hlast] at hvec
    split
    · rfl
    · rfl
    · rename_i hname
      exact absurd hname hvec
    · rfl

/-- The kind of a type is seen unless a type that decides it is enclosed. -/
theorem inferKind (h : Encloses type written) :
    Enhance.inferKind written =
      if (kindLayers written).any isEnclosed then .scalar else Enhance.inferKind type := by
  by_cases hwritten : isEnclosed written = true
  · rw [if_pos (by simp [kindLayers, hwritten]), inferKind_eq, unwrapOption?_of_isEnclosed hwritten]
    exact heldKind_of_isEnclosed hwritten
  · have hplain : isEnclosed written = false := Bool.eq_false_iff.mpr hwritten
    have hheld : Encloses ((Enhance.unwrapOption? type).getD type)
        ((Enhance.unwrapOption? written).getD written) := by
      have hrel := h.unwrapOption? hplain
      generalize Enhance.unwrapOption? type = inner at hrel ⊢
      generalize Enhance.unwrapOption? written = inner' at hrel ⊢
      cases hrel with
      | none => exact h
      | some hinner => exact hinner
    rw [inferKind_eq, inferKind_eq, hheld.heldKind, kindLayers, List.any_cons, hplain, Bool.false_or]

theorem isSome_unwrapOption? (h : Encloses type written) :
    (Enhance.unwrapOption? written).isSome =
      (!isEnclosed written && (Enhance.unwrapOption? type).isSome) := by
  by_cases hwritten : isEnclosed written = true
  · rw [unwrapOption?_of_isEnclosed hwritten, hwritten]
    rfl
  · rw [Bool.not_eq_true] at hwritten
    have hrel := h.unwrapOption? hwritten
    rw [hwritten, Bool.not_false, Bool.true_and]
    generalize Enhance.unwrapOption? type = inner at hrel ⊢
    generalize Enhance.unwrapOption? written = inner' at hrel ⊢
    cases hrel with
    | none => rfl
    | some => rfl

end Encloses

/-- Enclosing a type keeps the name of a primitive type. It keeps whether the type is optional exactly if
the type was not, or is not enclosed itself; and it keeps the kind of its values, and so the kind of a
property that no flag decides, exactly if the values are scalar or nothing is enclosed on the way to
them. -/
theorem enclosing_keeps_iff {type written : TypeExpr} (h : Encloses type written) :
    primitiveName? written = primitiveName? type ∧
    ((unwrapOption? written).isSome = (unwrapOption? type).isSome ↔
      (unwrapOption? type = none ∨ isEnclosed written = false)) ∧
    (inferKind written = inferKind type ↔
      (inferKind type = .scalar ∨ ∀ layer ∈ kindLayers written, isEnclosed layer = false)) ∧
    ∀ options : FieldOptions,
      (Description.kindOf options written = Description.kindOf options type ↔
        (options.embedded = true ∨ options.collection = true ∨ options.reference = true ∨
          inferKind type = .scalar ∨ ∀ layer ∈ kindLayers written, isEnclosed layer = false)) := by
  have hkind : inferKind written = inferKind type ↔
      (inferKind type = .scalar ∨ ∀ layer ∈ kindLayers written, isEnclosed layer = false) := by
    rw [h.inferKind]
    by_cases henclosed : (kindLayers written).any isEnclosed = true
    · have hlayer : ¬ ∀ layer ∈ kindLayers written, isEnclosed layer = false := by
        simpa using henclosed
      rw [if_pos henclosed, or_iff_left hlayer, eq_comm]
    · have hplain : ∀ layer ∈ kindLayers written, isEnclosed layer = false := by
        simpa using henclosed
      rw [if_neg henclosed]
      exact iff_of_true rfl (Or.inr hplain)
  refine ⟨h.primitiveName?, ?_, hkind, fun options => ?_⟩
  · rw [h.isSome_unwrapOption?]
    cases isEnclosed written <;> cases unwrapOption? type <;> simp
  · unfold Description.kindOf
    by_cases hembedded : options.embedded = true
    · simp [hembedded]
    by_cases hcollection : options.collection = true
    · simp [hembedded, hcollection]
    by_cases hreference : options.reference = true
    · simp [hembedded, hcollection, hreference]
    · simp only [hembedded, hcollection, hreference, false_or, Bool.false_eq_true, if_false]
      exact hkind

/-- A type with one argument. -/
def applied (name : String) (argument : TypeExpr) : TypeExpr :=
  .applied [] name (operator ['<']) argument (operator ['>'])

/-- A reference to an owner. -/
def ownerReference : TypeExpr := applied "Arc" (.named [] "Owner" [])

/-- Parentheses around an optional reference hide its kind, and leave it optional. -/
theorem optional_reference_enclosed :
    Encloses (applied "Option" ownerReference) (applied "Option" (.paren ownerReference)) ∧
    (unwrapOption? (applied "Option" (.paren ownerReference))).isSome =
      (unwrapOption? (applied "Option" ownerReference)).isSome ∧
    ¬ inferKind (applied "Option" (.paren ownerReference)) =
      inferKind (applied "Option" ownerReference) := by
  have hencloses : Encloses (applied "Option" ownerReference)
      (applied "Option" (.paren ownerReference)) :=
    .argument _ _ _ (Or.inl rfl) (.paren .self)
  obtain ⟨-, hoption, hkind, -⟩ := enclosing_keeps_iff hencloses
  refine ⟨hencloses, hoption.mpr (Or.inr rfl), fun hkept => ?_⟩
  rcases hkind.mp hkept with hscalar | hlayers
  · cases hscalar
  · exact absurd (hlayers (.paren ownerReference) (by decide)) (by decide)

/-- A reference is a scalar in parentheses, and an optional reference is not even optional, whereas a
primitive type is still found there. -/
theorem reference_hidden_by_parentheses :
    typeOfText? "Option<Arc<Owner>>" false = some (applied "Option" ownerReference) ∧
    typeOfText? "(Option<Arc<Owner>>)" false = some (.paren (applied "Option" ownerReference)) ∧
    Encloses (applied "Option" ownerReference) (.paren (applied "Option" ownerReference)) ∧
    inferKind (applied "Option" ownerReference) = .reference ∧
    inferKind (.paren (applied "Option" ownerReference)) = .scalar ∧
    (unwrapOption? (applied "Option" ownerReference)).isSome = true ∧
    (unwrapOption? (.paren (applied "Option" ownerReference))).isSome = false ∧
    (typeOfText? "(i32)" false).bind primitiveName? = some "i32" := by
  refine ⟨?_, ?_, .paren .self, rfl, rfl, rfl, rfl, ?_⟩
  · decide +kernel
  · decide +kernel
  · decide +kernel

end Enhance

end Chronicle
