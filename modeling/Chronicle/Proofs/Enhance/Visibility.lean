import Chronicle.Proofs.Enhance.Classes
import Chronicle.Proofs.Enhance.Setters
import Chronicle.Proofs.Sample.Sources

/-!
# From where methods can be used

Enhancing a class sets the visibility of the methods of the persistence layer, whatever was declared for
them: such a method can be used in the whole crate and nowhere else. This narrows what was declared just
if the method could be used in the whole crate before. A method that belongs to a module other than the
crate's root can be used from more places afterwards.

## Implementation notes

A visibility is told by the places from where an item can be used, given the module in which the item
stands. Modules are named by their paths from the crate's root, which is the empty path. So one module is
inside of another if the path of that one is a beginning of its own.
-/

namespace Chronicle

namespace Source

/-- Where code can stand: in another crate or in a module of this one. -/
inductive Place where
  | outside
  | inside (module : List String)

namespace Visibility

/-- The module that words lead to from a given one. -/
def follow (module : List String) : List String → List String
  | [] => module
  | "self" :: words => follow module words
  | "super" :: words => follow module.dropLast words
  | word :: words => follow (module ++ [word]) words

/-- The words of a place, without the one before a path. -/
def placeWords (place : Tokens) : List String :=
  (place.filterMap fun
    | .word word => some word
    | _ => none).filter (· ≠ "in")

/-- The module that a place names, if it is written in a given one. A path that begins with no word of its
own kind begins at the root. -/
def moduleOf (here : List String) (place : Tokens) : List String :=
  match placeWords place with
  | "crate" :: words => follow [] words
  | "self" :: words => follow here words
  | "super" :: words => follow here.dropLast words
  | words => follow [] words

/-- Whether an item that stands in a module with a visibility can be used from a place. -/
def Allows (here : List String) : Visibility → Place → Prop
  | .everywhere, _ => True
  | .inherited, .inside module => here <+: module
  | .inside place, .inside module => moduleOf here place <+: module
  | _, .outside => False

instance (here : List String) (v : Visibility) (place : Place) : Decidable (v.Allows here place) :=
  match v, place with
  | .everywhere, .outside | .everywhere, .inside _ => inferInstanceAs (Decidable True)
  | .inherited, .inside module => inferInstanceAs (Decidable (here <+: module))
  | .inside place, .inside module => inferInstanceAs (Decidable (moduleOf here place <+: module))
  | .inherited, .outside | .inside _, .outside => inferInstanceAs (Decidable False)

variable {here : List String} {v : Visibility} {place : Place}

/-- What can be used from the root can be used in the whole crate. -/
theorem allows_root_iff :
    v.Allows here (.inside []) ↔ ∀ module, v.Allows here (.inside module) := by
  constructor
  · intro hroot module
    cases v with
    | everywhere => trivial
    | inherited => exact List.IsPrefix.trans hroot List.nil_prefix
    | inside place => exact List.IsPrefix.trans hroot List.nil_prefix
  · intro hall
    exact hall []

theorem allows_crate_iff : crate.Allows here place ↔ ∃ module, place = .inside module := by
  cases place with
  | outside => simp [crate, Allows]
  | inside module => simp [crate, Allows, moduleOf, placeWords, follow]

/-- The crate's visibility is no wider than another one just if that one reaches the root. -/
theorem crate_narrows_iff :
    (∀ place, crate.Allows here place → v.Allows here place) ↔ v.Allows here (.inside []) := by
  rw [allows_root_iff]
  constructor
  · intro h module
    exact h _ (allows_crate_iff.mpr ⟨module, rfl⟩)
  · intro h place hcrate
    obtain ⟨module, rfl⟩ := allows_crate_iff.mp hcrate
    exact h module

end Visibility

end Source

namespace Enhance

open Source

variable {naming : Naming}

/-! ## Methods -/

/-- Whether a method has the visibility that enhancing its class gives a method: that of the crate, if its
name is one of the persistence layer, and the declared one otherwise. -/
structure VisibilityGiven (naming : Naming) (m new : Method) : Prop where
  signature : new.signature = m.signature
  visibility : new.visibility =
    if (stripPrefix? m.name naming.persistencePrefix).isSome then .crate else m.visibility

theorem rewriteMethod_visibilityGiven (naming : Naming) (items : List Item) (c : EntityClass)
    (m : Method) : VisibilityGiven naming m (rewriteMethod naming items c m) where
  signature := enhanceMethod_signature naming c _ m
  visibility := by
    have hcarried : ∀ verdict, (carryOut m verdict).name = m.name ∧
        (carryOut m verdict).visibility = m.visibility := by
      intro verdict
      cases verdict <;> exact ⟨rfl, rfl⟩
    rw [rewriteMethod, enhanceMethod, narrow, (hcarried _).1]
    split
    · rfl
    · exact (hcarried _).2

/-- Giving the visibility once more changes nothing. -/
theorem VisibilityGiven.trans {m next new : Method} (h : VisibilityGiven naming m next)
    (h' : VisibilityGiven naming next new) : VisibilityGiven naming m new where
  signature := h'.signature.trans h.signature
  visibility := by
    have hname : next.name = m.name := by rw [Method.name, h.signature, Method.name]
    rw [h'.visibility, hname, h.visibility]
    split <;> rfl

/-- What becomes of the visibility of a method that stands in a module. -/
structure VisibilitySet (naming : Naming) (here : List String) (m new : Method) : Prop where
  kept : (∀ rest, m.name ≠ naming.persistencePrefix ++ rest) → new.visibility = m.visibility
  /-- A method of the persistence layer can be used just in the crate. -/
  inCrate : ∀ rest, m.name = naming.persistencePrefix ++ rest →
    ∀ place, new.visibility.Allows here place ↔ ∃ module, place = .inside module
  /-- No place is added just if the method is not of that layer or could be used from the root before. -/
  narrowed_iff : (∀ place, new.visibility.Allows here place → m.visibility.Allows here place) ↔
    (∀ rest, m.name ≠ naming.persistencePrefix ++ rest) ∨ m.visibility.Allows here (.inside [])

theorem VisibilityGiven.visibilitySet {m new : Method} (h : VisibilityGiven naming m new)
    (here : List String) : VisibilitySet naming here m new := by
  cases hrest : stripPrefix? m.name naming.persistencePrefix with
  | none =>
      have hnone : ∀ rest, m.name ≠ naming.persistencePrefix ++ rest := by
        intro rest hname
        rw [stripPrefix?_eq_some_iff.mpr hname] at hrest
        cases hrest
      have hkept : new.visibility = m.visibility := by rw [h.visibility, hrest]; rfl
      exact ⟨fun _ => hkept, fun rest hname => absurd hname (hnone rest),
        iff_of_true (fun place hplace => hkept ▸ hplace) (.inl hnone)⟩
  | some rest =>
      have hname : ¬∀ other, m.name ≠ naming.persistencePrefix ++ other :=
        fun hnone => hnone rest (stripPrefix?_eq_some_iff.mp hrest)
      have hcrate : new.visibility = .crate := by rw [h.visibility, hrest]; rfl
      refine ⟨fun hnone => absurd hnone hname, fun _ _ place => ?_, ?_⟩
      · rw [hcrate]
        exact Visibility.allows_crate_iff
      · rw [hcrate, Visibility.crate_narrows_iff]
        simp [hname]

/-! ## Implementations -/

/-- The methods of an implementation of a class are all given their visibility, also where several classes
have the name of that one. -/
theorem methods_rewriteBlock (naming : Naming) (items : List Item) {classes : List EntityClass}
    {block : ImplBlock} (hown : ∃ c ∈ classes, isOwnImpl block c.name = true) :
    ∃ f : Method → Method,
      (rewriteBlock naming items classes block).methods = block.methods.map f ∧
      ∀ m, VisibilityGiven naming m (f m) := by
  induction classes generalizing block with
  | nil => simp at hown
  | cons c classes ih =>
      rw [rewriteBlock]
      by_cases hfirst : isOwnImpl block c.name = true
      · have hgiven := rewriteMethod_visibilityGiven naming items c
        have hmethods := methods_replaceInBlock c.name (rewriteMethod naming items c) block
        rw [if_pos hfirst] at hmethods
        -- A later class of the same name finds the methods as this one leaves them.
        by_cases hrest : ∃ d ∈ classes, isOwnImpl block d.name = true
        · have hagain : ∃ d ∈ classes, isOwnImpl
              (replaceInBlock c.name (rewriteMethod naming items c) block) d.name = true := by
            simpa only [isOwnImpl_replaceInBlock] using hrest
          obtain ⟨f, hblock, hf⟩ := ih hagain
          refine ⟨f ∘ rewriteMethod naming items c, ?_, fun m => (hgiven m).trans (hf _)⟩
          rw [hblock, hmethods, List.map_map]
        · have hnone : ∀ d ∈ classes, ¬isOwnImpl
              (replaceInBlock c.name (rewriteMethod naming items c) block) d.name = true := by
            simpa only [isOwnImpl_replaceInBlock, not_exists, not_and] using hrest
          rw [rewriteBlock_of_not_own naming items hnone]
          exact ⟨_, hmethods, hgiven⟩
      · rw [replaceInBlock, if_neg hfirst]
        apply ih
        simpa [hfirst] using hown

/-- What becomes of the methods of an implementation beside given classes. -/
structure BlockVisibility (naming : Naming) (classes : List EntityClass) (block new : ImplBlock) :
    Prop where
  own : (∃ c ∈ fresh classes, isOwnImpl block c.name = true) →
    ∀ here, List.Forall₂ (VisibilitySet naming here) block.methods new.methods
  other : (¬∃ c ∈ fresh classes, isOwnImpl block c.name = true) → new = block

/-- What becomes of the methods in a scope. -/
def ScopeVisibility (naming : Naming) (s after : Scope) : Prop :=
  ∃ classes, s.classes = .ok classes ∧
    List.Forall₂ (BlockVisibility naming classes) (blocksOf s.items) (blocksOf after.items)

theorem Scope.EnhancesTo.visibility {s : Scope} {outcome : Scope × Report}
    (h : s.EnhancesTo naming outcome) : ScopeVisibility naming s outcome.1 := by
  obtain ⟨classes, hclasses, -, rfl⟩ := Scope.enhancesTo_iff.mp h
  refine ⟨classes, hclasses, ?_⟩
  rw [blocksOf_enhancedItems, List.forall₂_map_right_iff, List.forall₂_same]
  intro block _
  constructor
  · intro hown here
    obtain ⟨f, hmethods, hf⟩ := methods_rewriteBlock naming s.items hown
    rw [hmethods, List.forall₂_map_right_iff, List.forall₂_same]
    exact fun m _ => (hf m).visibilitySet here
  · intro hnone
    exact rewriteBlock_of_not_own naming s.items (by simpa using hnone)

/-! ## Programs -/

/-- A run sets the visibility of the methods of the persistence layer to that of the crate, and keeps all
others. This narrows what was declared just where that reached the crate's root. -/
theorem enhancing_sets_visibility {source origin output : String} {report : Report}
    (h : (enhanceText naming source origin).result = .ok (output, report)) :
    ∃ program enhanced, Program.ofText? source = some program ∧ output = enhanced.text ∧
      List.Forall₂ (ScopeVisibility naming) (scopes program) (scopes enhanced) := by
  obtain ⟨program, enhanced, hsource, hrun, rfl⟩ := enhanceText_eq_ok.mp h
  obtain ⟨-, outcomes, hall, hscopes, -⟩ := enhanceProgram_scopes hrun
  refine ⟨program, enhanced, hsource, rfl, ?_⟩
  rw [hscopes, List.forall₂_map_right_iff]
  exact hall.imp fun s outcome hscope => hscope.visibility

/-- The methods of a note in a module are given their visibility. -/
theorem persistent_note_visibility :
    ∃ output report program enhanced,
      (enhanceText {} Sample.persistentNote "").result = .ok (output, report) ∧
      report.enhanced = [("m::Note", [])] ∧ Program.ofText? Sample.persistentNote = some program ∧
      output = enhanced.text ∧
      List.Forall₂ (ScopeVisibility {}) (scopes program) (scopes enhanced) := by
  have hok : (enhanceText {} Sample.persistentNote "").result.map (·.2.enhanced) =
      .ok [("m::Note", [])] := by
    decide +kernel
  obtain ⟨⟨output, report⟩, hrun, henhanced⟩ := map_eq_ok.mp hok
  obtain ⟨program, enhanced, hsource, htext, hscopes⟩ := enhancing_sets_visibility hrun
  exact ⟨output, report, program, enhanced, hrun, henhanced, hsource, htext, hscopes⟩

/-- A method for one module only can be used from the crate's root afterwards. -/
theorem hidden_method_exposed :
    ∃ program enhanced report, Program.ofText? Sample.persistentNote = some program ∧
      (enhanceProgram {} program).result = .ok (enhanced, report) ∧
      ∃ s ∈ scopes program, ∃ after ∈ scopes enhanced, s.path = "m" ∧ after.path = "m" ∧
        ∃ m ∈ ownMethods "Note" s.items, ∃ new ∈ ownMethods "Note" after.items,
          m.name = "_persistence_load" ∧ new.name = m.name ∧
          ¬m.visibility.Allows ["m"] (.inside []) ∧ new.visibility.Allows ["m"] (.inside []) := by
  have hruns : (Program.ofText? Sample.persistentNote).any (fun program : Program =>
      match (enhanceProgram {} program).result with
      | .ok (enhanced, _) => decide (
          ∃ s ∈ scopes program, ∃ after ∈ scopes enhanced, s.path = "m" ∧ after.path = "m" ∧
            ∃ m ∈ ownMethods "Note" s.items, ∃ new ∈ ownMethods "Note" after.items,
              m.name = "_persistence_load" ∧ new.name = m.name ∧
              ¬m.visibility.Allows ["m"] (.inside []) ∧ new.visibility.Allows ["m"] (.inside []))
      | .error _ => false) = true := by
    decide +kernel
  obtain ⟨program, hsource, hprogram⟩ := (Option.any_eq_true _ _).mp hruns
  split at hprogram
  · rename_i enhanced report hrun
    exact ⟨program, enhanced, report, hsource, hrun, of_decide_eq_true hprogram⟩
  · cases hprogram

end Enhance

end Chronicle
