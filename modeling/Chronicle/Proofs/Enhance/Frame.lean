import Chronicle.Proofs.Enhance.Marks
import Chronicle.Proofs.Enhance.Setters
import Chronicle.Proofs.Sample.Sources

/-!
# What enhancing leaves alone

Enhancing changes bodies of tracked setters, the visibility of methods of the persistence layer, and the
attributes of structs. Which implementations and structs it changes is told by names: an implementation
by the last word of its type, a struct by standing last among those of its name.

In a tidy scope these are the implementations of the entities of that scope and the entities themselves.

## Implementation notes

Items of scopes stand for a program here, since a program is determined by its attributes and its scopes
(`eq_of_scopes`). A module is one of the items around it with its head only, so that a module that stays
as it is may have changed scopes in it.
-/

namespace Chronicle

namespace Enhance

open Source

variable {naming : Naming}

/-! ## Methods -/

/-- Whether a method differs from another one at most in its body, if it is a setter, and in its
visibility, if its name is one of the persistence layer. -/
structure MethodTouched (naming : Naming) (IsSetter : Method → Prop) (m after : Method) : Prop where
  same : after = { m with visibility := after.visibility, body := after.body }
  visibility : after.visibility = m.visibility ∨
    after.visibility = .crate ∧ ∃ rest, m.name = naming.persistencePrefix ++ rest
  body : after.body = m.body ∨ IsSetter m

/-- The same for the members of an implementation. -/
inductive MemberTouched (naming : Naming) (IsSetter : Method → Prop) : Member → Member → Prop
  | method {m after : Method} (h : MethodTouched naming IsSetter m after) :
      MemberTouched naming IsSetter (.method m) (.method after)
  | other (tokens : Tokens) : MemberTouched naming IsSetter (.other tokens) (.other tokens)

/-- The same for an implementation. -/
structure BlockTouched (naming : Naming) (IsSetter : Method → Prop) (block after : ImplBlock) : Prop where
  same : after = { block with members := after.members }
  members : List.Forall₂ (MemberTouched naming IsSetter) block.members after.members

variable {IsSetter : Method → Prop}

theorem MethodTouched.refl (m : Method) : MethodTouched naming IsSetter m m :=
  ⟨rfl, .inl rfl, .inl rfl⟩

theorem MethodTouched.signature {m after : Method} (h : MethodTouched naming IsSetter m after) :
    after.signature = m.signature := by
  rw [h.same]

theorem MethodTouched.trans {m next after : Method}
    (hsetter : ∀ m other : Method, m.signature = other.signature → IsSetter m → IsSetter other)
    (h : MethodTouched naming IsSetter m next) (h' : MethodTouched naming IsSetter next after) :
    MethodTouched naming IsSetter m after where
  same := by
    rw [h'.same, h.same]
  visibility := by
    rcases h'.visibility with hkept | ⟨hcrate, rest, hname⟩
    · rw [hkept]
      exact h.visibility
    · refine .inr ⟨hcrate, rest, ?_⟩
      rwa [Method.name, ← h.signature]
  body := by
    rcases h'.body with hkept | hrewritten
    · rw [hkept]
      exact h.body
    · exact .inr (hsetter next m h.signature hrewritten)

theorem TrackedSetter.congr {c : EntityClass} {m other : Method} {field : ClassField}
    (hsame : m.signature = other.signature) (h : TrackedSetter naming c m field) :
    TrackedSetter naming c other field where
  named := by rw [Method.name, ← hsame]; exact h.named
  nonempty := h.nonempty
  silent := by rw [← hsame]; exact h.silent
  arguments := by rw [Method.arguments, ← hsame]; exact h.arguments
  declared := h.declared
  notEntry := h.notEntry
  notTransient := h.notTransient
  annotated := h.annotated

theorem rewriteMethod_touched (items : List Item) {c : EntityClass} {m : Method}
    (hsetter : ∀ field, TrackedSetter naming c m field → IsSetter m) :
    MethodTouched naming IsSetter m (rewriteMethod naming items c m) where
  same := by
    unfold rewriteMethod enhanceMethod narrow carryOut
    split <;> split <;> rfl
  visibility := by
    generalize hverdict : judge naming c (gettersOf naming c (ownMethods c.name items)) m = verdict
    have hcarried : (carryOut m verdict).visibility = m.visibility := by
      unfold carryOut
      split <;> rfl
    have hname : (carryOut m verdict).name = m.name := by
      unfold carryOut
      split <;> rfl
    rw [rewriteMethod, enhanceMethod, hverdict, narrow, hname]
    cases hprefix : stripPrefix? m.name naming.persistencePrefix with
    | none => exact .inl hcarried
    | some rest => exact .inr ⟨rfl, rest, stripPrefix?_eq_some_iff.mp hprefix⟩
  body := by
    by_cases htracked : ∃ field, TrackedSetter naming c m field
    · obtain ⟨field, hfield⟩ := htracked
      exact .inr (hsetter field hfield)
    · exact .inl (body_rewriteMethod_of_not_tracked items (not_exists.mp htracked))

/-! ## Implementations -/

/-- Classes rewrite the methods of an implementation one by one, each step touching them only as far as
it may. -/
theorem rewriteBlock_eq_map (items : List Item) {classes : List EntityClass} {block : ImplBlock}
    (hcongr : ∀ m other : Method, m.signature = other.signature → IsSetter m → IsSetter other)
    (hsetter : ∀ c ∈ classes, isOwnImpl block c.name = true →
      ∀ m field, TrackedSetter naming c m field → IsSetter m) :
    ∃ f : Method → Method,
      rewriteBlock naming items classes block =
        { block with members := block.members.map (mapMember f) } ∧
      ∀ m, MethodTouched naming IsSetter m (f m) := by
  induction classes generalizing block with
  | nil =>
      have hid : mapMember id = id := by
        funext member
        cases member <;> rfl
      exact ⟨id, by rw [hid, List.map_id]; rfl, .refl⟩
  | cons c classes ih =>
      obtain ⟨hfirst, hrest⟩ := List.forall_mem_cons.mp hsetter
      have hnext : ∀ d ∈ classes,
          isOwnImpl (replaceInBlock c.name (rewriteMethod naming items c) block) d.name = true →
          ∀ m field, TrackedSetter naming d m field → IsSetter m := by
        simpa only [isOwnImpl_replaceInBlock] using hrest
      obtain ⟨f, hblock, hf⟩ := ih hnext
      rw [rewriteBlock, hblock]
      by_cases hown : isOwnImpl block c.name = true
      · refine ⟨f ∘ rewriteMethod naming items c, ?_, ?_⟩
        · have hcomp : mapMember (f ∘ rewriteMethod naming items c) =
              mapMember f ∘ mapMember (rewriteMethod naming items c) := by
            funext member
            cases member <;> rfl
          rw [replaceInBlock, if_pos hown, hcomp, List.map_map]
        · intro m
          exact (rewriteMethod_touched items (hfirst hown m)).trans hcongr (hf _)
      · rw [replaceInBlock, if_neg hown]
        exact ⟨f, rfl, hf⟩

theorem rewriteBlock_touched (items : List Item) {classes : List EntityClass} {block : ImplBlock}
    (hcongr : ∀ m other : Method, m.signature = other.signature → IsSetter m → IsSetter other)
    (hsetter : ∀ c ∈ classes, isOwnImpl block c.name = true →
      ∀ m field, TrackedSetter naming c m field → IsSetter m) :
    BlockTouched naming IsSetter block (rewriteBlock naming items classes block) := by
  obtain ⟨f, hblock, hf⟩ := rewriteBlock_eq_map items hcongr hsetter
  rw [hblock]
  refine ⟨rfl, ?_⟩
  rw [List.forall₂_map_right_iff, List.forall₂_same]
  intro member _
  cases member with
  | method m => exact .method (hf m)
  | other tokens => exact .other tokens

/-! ## Items -/

/-- Whether an item differs from another one at most in marks, if it is a struct, and in methods that may
be touched, if it is an implementation of a class without the mark. Which structs have how many marks and
which implementations belong to a class is given. -/
inductive ItemTouched (naming : Naming) (classes : List EntityClass) (HasMarks : Struct → Nat → Prop)
    (Owns : EntityClass → ImplBlock → Prop) : Item → Item → Prop
  | same (item : Item) : ItemTouched naming classes HasMarks Owns item item
  | struct {declared : Struct} {times : Nat} (h : HasMarks declared times) :
      ItemTouched naming classes HasMarks Owns (.struct declared) (.struct (declared.marked times))
  | implementation {block after : ImplBlock} (howner : ∃ c ∈ fresh classes, Owns c block)
      (h : BlockTouched naming
        (fun m => ∃ c ∈ fresh classes, Owns c block ∧ ∃ field, TrackedSetter naming c m field)
        block after) :
      ItemTouched naming classes HasMarks Owns (.implementation block) (.implementation after)

theorem forall₂_withMarks {R : Item → Item → Prop} {names : List String} {items : List Item}
    (hstruct : ∀ front declared back, items = front ++ .struct declared :: back →
      R (.struct declared) (.struct (declared.marked
        (if back.any (isStructNamed declared.name) then 0 else names.count declared.name))))
    (hother : ∀ item ∈ items, (∀ declared, item ≠ .struct declared) → R item item) :
    List.Forall₂ R items (withMarks names items) := by
  induction items with
  | nil => exact .nil
  | cons item items ih =>
      obtain ⟨hfirst, hrest⟩ := List.forall_mem_cons.mp hother
      have htail : List.Forall₂ R items (withMarks names items) := by
        apply ih _ hrest
        intro front declared back hsplit
        exact hstruct (item :: front) declared back (by rw [hsplit]; rfl)
      cases item with
      | struct declared => exact .cons (hstruct [] declared items rfl) htail
      | module head inner => exact .cons (hfirst (by simp)) htail
      | outline head => exact .cons (hfirst (by simp)) htail
      | implementation block => exact .cons (hfirst (by simp)) htail
      | other tokens => exact .cons (hfirst (by simp)) htail

theorem enhancedItems_touched {classes : List EntityClass} {items : List Item}
    {HasMarks : Struct → Nat → Prop} {Owns : EntityClass → ImplBlock → Prop}
    (hmarks : ∀ front declared back, items = front ++ .struct declared :: back →
      HasMarks declared (if back.any (isStructNamed declared.name) then 0
        else ((fresh classes).map EntityClass.name).count declared.name))
    (howns : ∀ c ∈ fresh classes, ∀ block ∈ blocksOf items,
      isOwnImpl block c.name = true → Owns c block) :
    List.Forall₂ (ItemTouched naming classes HasMarks Owns) items
      (enhancedItems naming classes items) := by
  rw [enhancedItems, ← map_rewriteItem_withMarks, List.forall₂_map_right_iff]
  apply forall₂_withMarks
  · intro front declared back hsplit
    exact .struct (hmarks front declared back hsplit)
  · intro item hmem hother
    cases item with
    | struct declared => exact absurd rfl (hother declared)
    | implementation block =>
        have hblock := mem_blocksOf.mpr hmem
        by_cases howner : ∃ c ∈ fresh classes, isOwnImpl block c.name = true
        · obtain ⟨c, hc, hown⟩ := howner
          refine .implementation ⟨c, hc, howns c hc block hblock hown⟩ ?_
          apply rewriteBlock_touched
          · rintro m other hsame ⟨d, hd, howns', field, hfield⟩
            exact ⟨d, hd, howns', field, hfield.congr hsame⟩
          · intro d hd hown' m field hfield
            exact ⟨d, hd, howns d hd block hblock hown', field, hfield⟩
        · have hnone : ∀ c ∈ fresh classes, ¬isOwnImpl block c.name = true := by
            intro c hc hown
            exact howner ⟨c, hc, hown⟩
          rw [rewriteItem, rewriteBlock_of_not_own naming items hnone]
          exact .same _
    | module head inner => exact .same _
    | outline head => exact .same _
    | other tokens => exact .same _

/-! ## Tidy scopes -/

/-- Whether no struct among items shares its name with an entity without the mark, and all
implementations of own methods name their types by one word. -/
def Tidy (items : List Item) : Prop :=
  (items.Pairwise fun item later => ¬Shadowed item later ∧ ¬Shadowed later item) ∧
    ∀ block ∈ blocksOf items, NamedPlainly block

instance : DecidablePred Tidy := fun _ => inferInstanceAs (Decidable (_ ∧ _))

/-- In a tidy scope just the entities without the mark get one. -/
theorem Tidy.marks {s : Scope} {classes : List EntityClass} {front back : List Item}
    {declared : Struct} (h : Tidy s.items) (hclasses : s.classes = .ok classes)
    (hsplit : s.items = front ++ .struct declared :: back) :
    (if back.any (isStructNamed declared.name) then 0
      else ((fresh classes).map EntityClass.name).count declared.name) =
      if IsFresh declared then 1 else 0 := by
  rw [hsplit] at h
  obtain ⟨-, hcons, hacross⟩ := List.pairwise_append.mp h.1
  obtain ⟨hback, -⟩ := List.pairwise_cons.mp hcons
  have hapart : ∀ item ∈ front ++ back, ¬Shadowed item (.struct declared) := by
    intro item hmem
    rcases List.mem_append.mp hmem with hfront | hlater
    · exact (hacross item hfront _ List.mem_cons_self).1
    · exact (hback item hlater).2
  rw [fresh_names_eq hclasses, hsplit, count_freshStructs hapart]
  by_cases hfresh : IsFresh declared
  · have hlast : back.any (isStructNamed declared.name) = false := by
      rw [List.any_eq_false]
      intro later hlater hnamed
      exact (hback later hlater).1 ⟨hfresh, hnamed⟩
    simp [hlast]
  · simp [hfresh]

/-! ## Programs -/

/-- Whether a struct has the marks that standing last among the structs of its name may give it. -/
def MayHaveMarks (classes : List EntityClass) (declared : Struct) (times : Nat) : Prop :=
  times = 0 ∨ times = ((fresh classes).map EntityClass.name).count declared.name

/-- Whether a struct has one mark, if it is an entity without the mark, and none otherwise. -/
def HasOwnMark (declared : Struct) (times : Nat) : Prop :=
  times = if IsFresh declared then 1 else 0

/-- Whether a scope differs from another one at most in what enhancing may touch, and in nothing but its
own entities and their implementations, if it is tidy. -/
structure ScopeTouched (naming : Naming) (s after : Scope) : Prop where
  path : after.path = s.path
  items : ∃ classes, s.classes = .ok classes ∧
    List.Forall₂ (ItemTouched naming classes (MayHaveMarks classes)
      fun c block => isOwnImpl block c.name = true) s.items after.items
  tidyItems : Tidy s.items → ∃ classes, s.classes = .ok classes ∧
    List.Forall₂ (ItemTouched naming classes HasOwnMark fun c block => IsBlockOf c.name block)
      s.items after.items

theorem Scope.EnhancesTo.touched {s : Scope} {outcome : Scope × Report}
    (h : s.EnhancesTo naming outcome) : ScopeTouched naming s outcome.1 := by
  obtain ⟨classes, hclasses, -, rfl⟩ := Scope.enhancesTo_iff.mp h
  refine ⟨rfl, ⟨classes, hclasses, ?_⟩, fun htidy => ⟨classes, hclasses, ?_⟩⟩
  · apply enhancedItems_touched
    · intro front declared back _
      unfold MayHaveMarks
      split
      · exact .inl rfl
      · exact .inr rfl
    · exact fun _ _ _ _ hown => hown
  · apply enhancedItems_touched
    · intro front declared back hsplit
      exact htidy.marks hclasses hsplit
    · intro c _ block hblock hown
      exact (isOwnImpl_iff (htidy.2 block hblock)).mp hown

/-- A run touches bodies of setters, visibilities and marks only, and in tidy scopes only those of the
entities declared there and of their own implementations. -/
theorem enhancing_touches_entities_only {source origin output : String} {report : Report}
    (h : (enhanceText naming source origin).result = .ok (output, report)) :
    ∃ program enhanced, Program.ofText? source = some program ∧ output = enhanced.text ∧
      enhanced.attributes = program.attributes ∧
      List.Forall₂ (ScopeTouched naming) (scopes program) (scopes enhanced) := by
  obtain ⟨program, enhanced, hsource, hrun, rfl⟩ := enhanceText_eq_ok.mp h
  obtain ⟨hattributes, outcomes, hall, hscopes, -⟩ := enhanceProgram_scopes hrun
  refine ⟨program, enhanced, hsource, rfl, hattributes, ?_⟩
  rw [hscopes, List.forall₂_map_right_iff]
  exact hall.imp fun s outcome hscope => hscope.touched

/-- A note is rewritten as its scope, which is tidy, allows. -/
theorem note_touched :
    ∃ output report program enhanced, (enhanceText {} Sample.note "").result = .ok (output, report) ∧
      Program.ofText? Sample.note = some program ∧ output = enhanced.text ∧
      enhanced.attributes = program.attributes ∧ (∀ s ∈ scopes program, Tidy s.items) ∧
      List.Forall₂ (ScopeTouched {}) (scopes program) (scopes enhanced) := by
  have hok : (enhanceText {} Sample.note "").result.isOk = true := by decide +kernel
  have htidy : (Program.ofText? Sample.note).all
      (fun program => (scopes program).all fun s => decide (Tidy s.items)) = true := by
    decide +kernel
  obtain ⟨⟨output, report⟩, hrun⟩ := isOk_iff.mp hok
  obtain ⟨program, enhanced, hsource, htext, hattributes, hscopes⟩ :=
    enhancing_touches_entities_only hrun
  refine ⟨output, report, program, enhanced, hrun, hsource, htext, hattributes, ?_, hscopes⟩
  simpa [hsource] using htidy

/-- The accessors of another module's note are rewritten for the note that stands beside them. -/
theorem foreign_note_rewritten :
    ∃ program enhanced report, Program.ofText? Sample.foreignNote = some program ∧
      (enhanceProgram {} program).result = .ok (enhanced, report) ∧
      report.enhanced = [("Note", ["text"])] ∧
      ∃ block ∈ blocksOf program.items, block.type.tokens = code "other::Note" ∧
        block ∉ blocksOf enhanced.items := by
  have hruns : (Program.ofText? Sample.foreignNote).any (fun program =>
      match (enhanceProgram {} program).result with
      | .ok (enhanced, report) => decide (report.enhanced = [("Note", ["text"])] ∧
          ∃ block ∈ blocksOf program.items, block.type.tokens = code "other::Note" ∧
            block ∉ blocksOf enhanced.items)
      | .error _ => false) = true := by
    decide +kernel
  obtain ⟨program, hsource, hprogram⟩ := (Option.any_eq_true _ _).mp hruns
  split at hprogram
  · rename_i enhanced report hrun
    exact ⟨program, enhanced, report, hsource, hrun, of_decide_eq_true hprogram⟩
  · cases hprogram

end Enhance

end Chronicle
