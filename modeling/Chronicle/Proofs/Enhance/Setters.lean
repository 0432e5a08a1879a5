import Chronicle.Proofs.Enhance.Classes

/-!
# Tracked setters

A tracked setter is described by its name, its signature and the options of the field that it sets. What
is said about a method of a class, and what becomes of its body, depends on whether it is one.

## Implementation notes

An implementation is one of a class here if it names its type by the name of the class alone. The
rewriting compares the last word of a path only, which is the same for types named by one word.
-/

namespace Chronicle

namespace Enhance

open Source

/-! ## Setters and getters -/

/-- Whether a method sets a tracked field: its name, its arguments and the field's options say so. No
field has an empty name, and a name belongs to the first field that bears it. -/
structure TrackedSetter (naming : Naming) (c : EntityClass) (m : Method) (field : ClassField) : Prop where
  named : m.name = naming.setterPrefix ++ field.name
  nonempty : field.name ≠ ""
  silent : m.signature.result = []
  arguments : ∃ receiver own, ∃ attributes pattern type,
    m.arguments = [.receiver receiver own true true, .typed attributes pattern true type]
  declared : c.field? field.name = some field
  notEntry : field.options.entry = false
  notTransient : field.options.transient = false
  annotated : c.options.annotatedOnly = true → field.options.property = true

/-- Whether a method reads a field, as its name and its signature say. -/
structure ReadsField (naming : Naming) (m : Method) (field : String) : Prop where
  named : m.name = field ∨ m.name = naming.getterPrefix ++ field
  arguments : ∃ attributes own, m.arguments = [.receiver attributes own true false]
  speaks : m.signature.result ≠ []

/-- Whether a type is the primitive type with a given name, possibly in parentheses. -/
inductive IsPrimitive (name : String) : TypeExpr → Prop
  | named (h : name ∈ primitiveTypes) : IsPrimitive name (.named [] name [])
  | paren {inner : TypeExpr} (h : IsPrimitive name inner) : IsPrimitive name (.paren inner)
  | bare {inner : TypeExpr} (h : IsPrimitive name inner) : IsPrimitive name (.bare inner)

/-- Whether the parameter of a setter or the field that it sets has the primitive type with a given
name. -/
def TouchesPrimitive (m : Method) (field : ClassField) (name : String) : Prop :=
  ∃ type ∈ (argumentType? m).toList ++ [field.type], IsPrimitive name type

theorem primitiveName?_eq_some_iff {type : TypeExpr} {name : String} :
    primitiveName? type = some name ↔ IsPrimitive name type := by
  constructor
  · intro h
    fun_induction primitiveName? type with
    | case1 inner ih => exact .bare (ih h)
    | case2 inner ih => exact .paren (ih h)
    | case3 own hknown =>
        cases h
        exact .named (List.contains_iff_mem.mp hknown)
    | case4 => cases h
    | case5 => cases h
  · intro h
    induction h with
    | named h => simp [primitiveName?, h]
    | paren _ ih => exact ih
    | bare _ ih => exact ih

theorem stripPrefix?_eq_some_iff {name beginning rest : String} :
    stripPrefix? name beginning = some rest ↔ name = beginning ++ rest := by
  rw [stripPrefix?, Option.map_eq_some_iff]
  constructor
  · rintro ⟨chars, hprefix, rfl⟩
    rw [List.isPrefixOf?_eq_some_iff_append_eq] at hprefix
    apply String.toList_inj.mp
    rw [String.toList_append, String.toList_ofList, hprefix]
  · rintro rfl
    refine ⟨rest.toList, ?_, String.ofList_toList⟩
    rw [List.isPrefixOf?_eq_some_iff_append_eq, String.toList_append]

theorem setterField?_eq_some_iff {naming : Naming} {m : Method} {name : String} :
    setterField? naming m = some name ↔
      m.name = naming.setterPrefix ++ name ∧ name ≠ "" ∧ m.signature.result = [] ∧
        ∃ receiver own, ∃ attributes pattern type,
          m.arguments = [.receiver receiver own true true, .typed attributes pattern true type] := by
  simp only [setterField?, Option.bind_eq_bind, Option.bind_eq_some_iff, stripPrefix?_eq_some_iff]
  constructor
  · rintro ⟨field, hname, h⟩
    split at h
    · cases h
    · rename_i hshape
      split at h
      · rename_i receiver own attributes pattern type harguments
        cases h
        simp only [Bool.or_eq_true, not_or, Bool.not_eq_true', Bool.not_eq_false] at hshape
        exact ⟨hname, by simpa using hshape.1, by simpa using hshape.2, receiver, own, attributes,
          pattern, type, harguments⟩
      · cases h
  · rintro ⟨hname, hne, hresult, receiver, own, attributes, pattern, type, harguments⟩
    refine ⟨name, hname, ?_⟩
    simp [harguments, hresult, hne]

theorem isGetter_iff {m : Method} :
    isGetter m = true ↔ (∃ attributes own, m.arguments = [.receiver attributes own true false]) ∧
      m.signature.result ≠ [] := by
  unfold isGetter
  split
  · rename_i attributes own harguments
    simp [harguments]
  · rename_i hother
    simp only [Bool.false_eq_true, false_iff, not_and]
    rintro ⟨attributes, own, harguments⟩
    exact absurd harguments (hother attributes own)

/-! ## Verdicts -/

variable {naming : Naming} {c : EntityClass} {m : Method} {field : ClassField}

theorem TrackedSetter.setterField? (h : TrackedSetter naming c m field) :
    setterField? naming m = some field.name :=
  setterField?_eq_some_iff.mpr ⟨h.named, h.nonempty, h.silent, h.arguments⟩

theorem isTracked_iff :
    c.isTracked field = true ↔ field.options.entry = false ∧ field.options.transient = false ∧
      (c.options.annotatedOnly = true → field.options.property = true) := by
  unfold EntityClass.isTracked
  cases field.options.entry <;> cases field.options.transient <;>
    cases c.options.annotatedOnly <;> cases field.options.property <;> simp

/-- The first primitive type that a setter touches. -/
def primitiveOf? (m : Method) (field : ClassField) : Option String :=
  ((argumentType? m).toList ++ [field.type]).findSome? primitiveName?

theorem TouchesPrimitive.of_primitiveOf? {name : String} (h : primitiveOf? m field = some name) :
    TouchesPrimitive m field name := by
  obtain ⟨type, hmem, hname⟩ := List.exists_of_findSome?_eq_some h
  exact ⟨type, hmem, primitiveName?_eq_some_iff.mp hname⟩

theorem primitiveOf?_eq_none_iff :
    primitiveOf? m field = none ↔ ∀ name, ¬TouchesPrimitive m field name := by
  rw [primitiveOf?, List.findSome?_eq_none_iff]
  constructor
  · rintro h name ⟨type, hmem, hprimitive⟩
    have hname := primitiveName?_eq_some_iff.mpr hprimitive
    rw [h type hmem] at hname
    cases hname
  · intro h type hmem
    cases hname : primitiveName? type with
    | none => rfl
    | some name => exact absurd ⟨type, hmem, primitiveName?_eq_some_iff.mp hname⟩ (h name)

/-- What is said about a tracked setter. -/
theorem judge_of_tracked (getters : Getters) (h : TrackedSetter naming c m field) :
    judge naming c getters m =
      match primitiveOf? m field with
      | some type => .fail (.primitiveField c.displayName field.name type)
      | none =>
        match getters.lookup field.name with
        | some getter => .wrap field.name getter
        | none => .fail (.missingGetter c.displayName field.name) := by
  have htracked := isTracked_iff.mpr ⟨h.notEntry, h.notTransient, h.annotated⟩
  simp only [judge, h.setterField?, h.declared, htracked, if_true]
  rfl

/-- A tracked setter with no error about it is wrapped. -/
theorem judge_eq_wrap (getters : Getters) (h : TrackedSetter naming c m field)
    (hnone : ∀ error, judge naming c getters m ≠ .fail error) :
    primitiveOf? m field = none ∧ ∃ getter, getters.lookup field.name = some getter ∧
      judge naming c getters m = .wrap field.name getter := by
  have hjudge := judge_of_tracked getters h
  cases hprimitive : primitiveOf? m field with
  | some type =>
      rw [hprimitive] at hjudge
      exact absurd hjudge (hnone _)
  | none =>
      rw [hprimitive] at hjudge
      cases hgetter : getters.lookup field.name with
      | none =>
          rw [hgetter] at hjudge
          exact absurd hjudge (hnone _)
      | some getter =>
          rw [hgetter] at hjudge
          exact ⟨rfl, getter, rfl, hjudge⟩

/-- Any other method is left alone. -/
theorem judge_of_not_tracked (getters : Getters) (h : ∀ field, ¬TrackedSetter naming c m field) :
    judge naming c getters m = .keep ∨ ∃ name, judge naming c getters m = .untracked name := by
  unfold judge
  cases hsetter : setterField? naming m with
  | none => exact .inl rfl
  | some name =>
      simp only
      cases hfield : c.field? name with
      | none => exact .inl rfl
      | some field =>
          obtain ⟨hnamed, hne, hsilent, harguments⟩ := setterField?_eq_some_iff.mp hsetter
          have hname : field.name = name := by
            simpa using List.find?_some hfield
          have htracked : ¬c.isTracked field = true := by
            intro htracked
            obtain ⟨hentry, htransient, hannotated⟩ := isTracked_iff.mp htracked
            subst hname
            exact h field ⟨hnamed, hne, hsilent, harguments, hfield, hentry, htransient, hannotated⟩
          simp only [htracked]
          exact .inr ⟨name, rfl⟩

/-! ## Getters -/

/-- Whether getters are methods of a class that read their fields. -/
def GettersSound (naming : Naming) (methods : List Method) (getters : Getters) : Prop :=
  ∀ entry ∈ getters, ∃ m ∈ methods, m.name = entry.2 ∧ ReadsField naming m entry.1

theorem GettersSound.addGetter {methods : List Method} {getters : Getters}
    (h : GettersSound naming methods getters) (hmem : m ∈ methods) :
    GettersSound naming methods (addGetter naming c getters m) := by
  unfold Enhance.addGetter
  by_cases hshape : isGetter m = true
  · obtain ⟨harguments, hspeaks⟩ := isGetter_iff.mp hshape
    simp only [hshape, if_true]
    cases hstripped : (stripPrefix? m.name naming.getterPrefix).filter
        fun field => (c.field? field).isSome with
    | some name =>
        have hname : m.name = naming.getterPrefix ++ name :=
          stripPrefix?_eq_some_iff.mp (Option.filter_eq_some_iff.mp hstripped).1
        have hnew : GettersSound naming methods (getters ++ [(name, m.name)]) :=
          List.forall_mem_append.mpr ⟨h, List.forall_mem_singleton.mpr
            ⟨m, hmem, rfl, .inr hname, harguments, hspeaks⟩⟩
        simp only
        split
        · exact h
        · exact hnew
    | none =>
        have hkept : GettersSound naming methods (getters.filter (·.1 ≠ m.name)) :=
          fun entry hentry => h entry (List.mem_of_mem_filter hentry)
        simp only
        split
        · exact List.forall_mem_append.mpr ⟨hkept, List.forall_mem_singleton.mpr
            ⟨m, hmem, rfl, .inl rfl, harguments, hspeaks⟩⟩
        · exact h
  · simpa only [if_neg hshape] using h

theorem gettersOf_sound (naming : Naming) (c : EntityClass) (methods : List Method) :
    GettersSound naming methods (gettersOf naming c methods) := by
  have hall : ∀ (rest : List Method) (getters : Getters), (∀ m ∈ rest, m ∈ methods) →
      GettersSound naming methods getters →
      GettersSound naming methods (rest.foldl (addGetter naming c) getters) := by
    intro rest
    induction rest with
    | nil => exact fun _ _ hsound => hsound
    | cons m rest ih =>
        intro getters hmem hsound
        obtain ⟨hfirst, hrest⟩ := List.forall_mem_cons.mp hmem
        exact ih _ hrest (hsound.addGetter hfirst)
  exact hall methods [] (fun _ hm => hm) (by simp [GettersSound])

/-! ## Methods of a class -/

theorem firstError?_eq_none_iff {verdicts : List Verdict} :
    firstError? verdicts = none ↔ ∀ error, .fail error ∉ verdicts := by
  rw [firstError?, List.findSome?_eq_none_iff]
  constructor
  · intro h error hmem
    cases h _ hmem
  · intro h verdict hmem
    cases verdict with
    | fail error => exact absurd hmem (h error)
    | _ => rfl

theorem body_rewriteMethod (naming : Naming) (items : List Item) (c : EntityClass) (m : Method) :
    (rewriteMethod naming items c m).body =
      (carryOut m (judge naming c (gettersOf naming c (ownMethods c.name items)) m)).body := by
  unfold rewriteMethod enhanceMethod narrow
  split <;> rfl

/-- A wrapped body is longer than the body in it. -/
theorem wrapped_ne (field getter : String) (body : Tokens) : wrapped field getter body ≠ body := by
  intro heq
  have hlength : body.length < (wrapped field getter body).length := by
    simp only [wrapped, group, List.length_append, List.length_cons]
    omega
  rw [heq] at hlength
  exact Nat.lt_irrefl _ hlength

/-- A tracked setter of a class without errors is wrapped. -/
theorem body_rewriteMethod_of_tracked {items : List Item}
    (hfault : firstError? (verdictsAmong naming items c) = none) (hmem : m ∈ ownMethods c.name items)
    (h : TrackedSetter naming c m field) :
    (∀ type, ¬TouchesPrimitive m field type) ∧
      ∃ getter ∈ ownMethods c.name items, ReadsField naming getter field.name ∧
        (rewriteMethod naming items c m).body = wrapped field.name getter.name m.body := by
  have hnone : ∀ error,
      judge naming c (gettersOf naming c (ownMethods c.name items)) m ≠ .fail error := by
    intro error heq
    exact firstError?_eq_none_iff.mp hfault error (heq ▸ List.mem_map_of_mem hmem)
  obtain ⟨hprimitive, name, hlookup, hjudge⟩ := judge_eq_wrap _ h hnone
  obtain ⟨front, back, hsplit, -⟩ := List.lookup_eq_some_iff.mp hlookup
  have hentry : (field.name, name) ∈ gettersOf naming c (ownMethods c.name items) := by
    rw [hsplit]
    exact List.mem_append_cons_self
  obtain ⟨getter, hown, rfl, hreads⟩ := gettersOf_sound naming c _ _ hentry
  refine ⟨primitiveOf?_eq_none_iff.mp hprimitive, getter, hown, hreads, ?_⟩
  rw [body_rewriteMethod, hjudge]
  rfl

theorem body_rewriteMethod_of_not_tracked (items : List Item)
    (h : ∀ field, ¬TrackedSetter naming c m field) :
    (rewriteMethod naming items c m).body = m.body := by
  rw [body_rewriteMethod]
  rcases judge_of_not_tracked (gettersOf naming c (ownMethods c.name items)) h with
    hkeep | ⟨name, huntracked⟩
  · rw [hkeep]
    rfl
  · rw [huntracked]
    rfl

/-- Whether fields are those of the tracked setters among methods, in the order of the methods. -/
inductive SettersListed (naming : Naming) (c : EntityClass) : List Method → List String → Prop
  | nil : SettersListed naming c [] []
  | setter {m : Method} {methods : List Method} {field : ClassField} {names : List String}
      (h : TrackedSetter naming c m field) (hrest : SettersListed naming c methods names) :
      SettersListed naming c (m :: methods) (field.name :: names)
  | other {m : Method} {methods : List Method} {names : List String}
      (h : ∀ field, ¬TrackedSetter naming c m field) (hrest : SettersListed naming c methods names) :
      SettersListed naming c (m :: methods) names

theorem settersListed_wrappedFields (getters : Getters) {methods : List Method}
    (hfault : firstError? (methods.map (judge naming c getters)) = none) :
    SettersListed naming c methods (wrappedFields (methods.map (judge naming c getters))) := by
  have hnone := firstError?_eq_none_iff.mp hfault
  clear hfault
  induction methods with
  | nil => exact .nil
  | cons m methods ih =>
      have hrest := ih fun error hmem => hnone error (List.mem_cons_of_mem _ hmem)
      by_cases htracked : ∃ field, TrackedSetter naming c m field
      · obtain ⟨field, h⟩ := htracked
        obtain ⟨-, getter, -, hjudge⟩ := judge_eq_wrap getters h fun error heq =>
          hnone error (heq ▸ List.mem_cons_self)
        rw [List.map_cons, hjudge]
        exact .setter h hrest
      · have hother : ∀ field, ¬TrackedSetter naming c m field := not_exists.mp htracked
        rcases judge_of_not_tracked getters hother with hkeep | ⟨name, huntracked⟩
        · rw [List.map_cons, hkeep]
          exact .other hother hrest
        · rw [List.map_cons, huntracked]
          exact .other hother hrest

/-! ## Implementations of a class -/

/-- The name of a type that is named by one word. -/
def plainName? : TypeExpr → Option String
  | .named [] name _ => some name
  | .applied [] name _ _ _ => some name
  | _ => none

/-- Whether an implementation holds the own methods of the type with a given name. -/
def IsBlockOf (name : String) (block : ImplBlock) : Prop :=
  block.trait = [] ∧ plainName? block.type = some name

instance (name : String) : DecidablePred (IsBlockOf name) := fun _ => inferInstanceAs (Decidable (_ ∧ _))

/-- Whether an implementation of own methods names its type by one word, if by a path. -/
def NamedPlainly (block : ImplBlock) : Prop :=
  block.trait = [] → plainName? block.type = block.type.lastName?

instance : DecidablePred NamedPlainly := fun _ => inferInstanceAs (Decidable (_ → _))

/-- The own methods of the type with a given name among items. -/
def inherentMethods (name : String) (items : List Item) : List Method :=
  (blocksOf items).flatMap fun block => if IsBlockOf name block then block.methods else []

theorem isOwnImpl_iff {block : ImplBlock} {name : String} (h : NamedPlainly block) :
    isOwnImpl block name = true ↔ IsBlockOf name block := by
  rw [isOwnImpl, Bool.and_eq_true, List.isEmpty_iff, decide_eq_true_eq, IsBlockOf]
  exact and_congr_right fun htrait => by rw [h htrait]

theorem inherentMethods_eq {items : List Item} (h : ∀ block ∈ blocksOf items, NamedPlainly block)
    (name : String) : inherentMethods name items = ownMethods name items := by
  rw [inherentMethods, ownMethods_eq_flatMap_blocksOf]
  apply List.flatMap_congr
  intro block hblock
  simp only [isOwnImpl_iff (h block hblock)]

end Enhance

end Chronicle
