import Chronicle.Enhance.Generated
import Chronicle.Proofs.Source.TextValue

/-!
# What generated code says

The code that is generated for an entity, read again: which properties its metadata names, what it gives
for a property that is asked for by name, and whether it says that setters are enhanced.

## Implementation notes

Generated code is read token by token. Its lists and its cases have commas between them, and no comma
outside of a group is part of one of them.
-/

namespace Chronicle

namespace Enhance

open Source

namespace Generated

/-! ## Pieces between commas -/

/-- Pieces with one more token at the front of the first one. -/
def addToken (token : Source.Token) : List Tokens → List Tokens
  | [] => [[token]]
  | piece :: pieces => (token :: piece) :: pieces

/-- The pieces of tokens between the commas outside of groups, given how many groups are open. -/
def piecesIn : Nat → Tokens → List Tokens
  | _, [] => [[]]
  | depth, token :: rest =>
    match token with
    | .opened _ => addToken token (piecesIn (depth + 1) rest)
    | .closed _ => addToken token (piecesIn (depth - 1) rest)
    | .punct ',' _ =>
      if depth = 0 then [] :: piecesIn 0 rest else addToken token (piecesIn depth rest)
    | _ => addToken token (piecesIn depth rest)

/-! ## Names in the metadata -/

/-- The name of a property that a piece of the metadata describes. -/
def nameIn? (piece : Tokens) : Option String :=
  match piece.dropWhile (· ≠ .opened .brace) with
  | .opened .brace :: .word "name" :: .punct ':' false :: .literal literal :: _ => textValue? literal
  | _ => none

/-- The names of the properties that the metadata describes, one after another. -/
def namesListed (listed : Tokens) : List String := (piecesIn 0 listed).filterMap nameIn?

theorem nameIn?_propertyMeta (p : DescribedProperty) : nameIn? (propertyMeta p) = some p.name := by
  exact textValue?_textLiteral p.name

theorem namesListed_propertyMeta (p : DescribedProperty) : namesListed (propertyMeta p) = [p.name] := by
  have hpieces : piecesIn 0 (propertyMeta p) = [propertyMeta p] := by
    rfl
  rw [namesListed, hpieces, List.filterMap_cons, nameIn?_propertyMeta]
  rfl

theorem namesListed_comma (p : DescribedProperty) (rest : Tokens) :
    namesListed (propertyMeta p ++ code "," ++ rest) = p.name :: namesListed rest := by
  have hpieces : piecesIn 0 (propertyMeta p ++ code "," ++ rest) =
      propertyMeta p :: piecesIn 0 rest := by
    rfl
  rw [namesListed, hpieces, List.filterMap_cons, nameIn?_propertyMeta, namesListed]

/-- The metadata names the described properties. -/
theorem namesListed_metas (properties : List DescribedProperty) :
    namesListed (commaSeparated (properties.map propertyMeta)) =
      properties.map DescribedProperty.name := by
  induction properties with
  | nil => rfl
  | cons p properties ih =>
      cases properties with
      | nil => exact namesListed_propertyMeta p
      | cons next rest =>
          calc
            namesListed (commaSeparated ((p :: next :: rest).map propertyMeta)) =
                p.name :: namesListed (commaSeparated ((next :: rest).map propertyMeta)) :=
              namesListed_comma p _
            _ = (p :: next :: rest).map DescribedProperty.name := by
              rw [ih]
              rfl

/-! ## Values by name -/

/-- What a case gives for a text, if its pattern is that text or stands for any. -/
def caseResult? (text : String) : Tokens → Option Tokens
  | .literal pattern :: .punct '=' true :: .punct '>' false :: result =>
    if textValue? pattern = some text then some result else none
  | .word "_" :: .punct '=' true :: .punct '>' false :: result => some result
  | _ => none

/-- What cases give for a text: the result of the first one that fits. -/
def resultFor? (text : String) (cases : Tokens) : Option Tokens :=
  (piecesIn 0 cases).findSome? (caseResult? text)

/-- The value of a field as a result. -/
def someValue (name : String) : Tokens :=
  code "Some" ++ group .paren
    (code ":: entity_model :: ToValue :: to_value" ++ group .paren (code "&" ++ fieldOf name))

theorem resultFor?_readCase (text : String) (p : DescribedProperty) (rest : Tokens) :
    resultFor? text (readCase p ++ rest) =
      if p.name = text then some (someValue p.name) else resultFor? text rest := by
  have hpieces : piecesIn 0 (readCase p ++ rest) =
      (literal p.name ++ code "=>" ++ someValue p.name) :: piecesIn 0 rest := by
    rfl
  have hcase : caseResult? text (literal p.name ++ code "=>" ++ someValue p.name) =
      if textValue? (Scanner.textLiteral p.name.toList) = some text then some (someValue p.name)
      else none := by
    rfl
  rw [resultFor?, hpieces, List.findSome?_cons, hcase, textValue?_textLiteral, resultFor?]
  by_cases hname : p.name = text
  · simp [hname]
  · simp [hname]

/-- A described property has a value, and any other text has none. -/
theorem resultFor?_readCases (text : String) (properties : List DescribedProperty) :
    resultFor? text (properties.flatMap readCase ++ code "_ => None ,") =
      if text ∈ properties.map DescribedProperty.name then some (someValue text)
      else some (code "None") := by
  induction properties with
  | nil => rfl
  | cons p properties ih =>
      rw [List.flatMap_cons, List.append_assoc, resultFor?_readCase, ih, List.map_cons]
      by_cases hname : p.name = text
      · simp [hname]
      · simp [hname, Ne.symm hname]

/-! ## Implementations -/

/-- A part between two others. -/
theorem append_infix (head body rest : Tokens) : head ++ body <:+: head ++ (body ++ rest) := by
  rw [← List.append_assoc]
  exact (List.prefix_append _ rest).isInfix

/-- Whether the members of an implementation name properties in the metadata, give values for just these
and tell whether setters are enhanced. -/
structure MembersSay (members : Tokens) (names : List String) (enhanced : Bool) : Prop where
  metadata : ∃ listed rest, namesListed listed = names ∧
    code "fn meta (& self) -> & 'static :: entity_model :: EntityMeta" ++
      group .brace (code "static PROPERTIES : & [:: entity_model :: PropertyMeta] = &" ++
        group .bracket listed ++ rest) <:+: members
  values : ∃ cases,
    (∀ text, resultFor? text cases =
      if text ∈ names then some (someValue text) else some (code "None")) ∧
    code "fn get_value (& self , property : & str) -> Option < :: entity_model :: Value >" ++
      group .brace (code "match property" ++ group .brace cases) <:+: members
  enhanced : code "fn setters_enhanced (& self) -> bool" ++ group .brace (truth enhanced) <:+: members

theorem entityImpl_says (d : Description) :
    ∃ members, entityImpl d = implFront d "ManagedEntity" ++ group .brace members ∧
      MembersSay members (d.properties.map DescribedProperty.name) d.options.settersEnhanced := by
  refine ⟨_, rfl, ?_, ?_, ?_⟩
  · have hbody : ∃ rest, metaBody d =
        code "static PROPERTIES : & [:: entity_model :: PropertyMeta] = &" ++
          group .bracket (commaSeparated (d.properties.map propertyMeta)) ++ rest := by
      simp only [metaBody, List.append_assoc]
      exact ⟨_, rfl⟩
    obtain ⟨rest, hbody⟩ := hbody
    refine ⟨_, rest, namesListed_metas d.properties, ?_⟩
    rw [← hbody]
    simp only [List.append_assoc]
    apply append_infix
  · refine ⟨_, fun text => resultFor?_readCases text d.properties, ?_⟩
    simp only [List.append_assoc]
    -- Four methods stand before this one, each with its front and its body.
    iterate 8 apply List.infix_append_of_infix_right
    apply append_infix
  · simp only [List.append_assoc]
    -- Two more methods stand before this one, the front of the second one in three parts.
    iterate 14 apply List.infix_append_of_infix_right
    apply append_infix

/-- Whether code that is generated from a description implements an entity with enhanced setters whose
metadata names certain properties. -/
def SaysEnhanced (d : Description) (written : Tokens) (names : List String) : Prop :=
  ∃ members others,
    written = implFront d "ManagedEntity" ++ group .brace members ++
      (implFront d "SettersEnhanced" ++ group .brace []) ++ others ∧
    MembersSay members names true

theorem generated_says {d : Description} (h : d.options.settersEnhanced = true) :
    SaysEnhanced d d.generated (d.properties.map DescribedProperty.name) := by
  obtain ⟨members, hmembers, hsay⟩ := entityImpl_says d
  rw [h] at hsay
  refine ⟨members, embeddableImpls d, ?_, hsay⟩
  rw [Description.generated, hmembers, enhancedImpl, if_pos h]

end Generated

end Enhance

end Chronicle
