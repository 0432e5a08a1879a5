import Chronicle.Proofs.Entity.Conversion
import Chronicle.Proofs.Entity.Equality
import Mathlib.Data.List.Induction

/-!
# Sets of objects by their insertions

A program collects sets of objects, copies them, and inserts and removes objects. Whatever it does, no
set holds an object twice, the items stand in the order in which they were inserted last, a set contains
what was inserted and not removed since, and each insertion and removal answers whether it changed what
the set contains. A set that becomes a value and is taken back is the same set; a list of objects becomes
the set of their first occurrences.

## Implementation notes

A set is followed together with its past, which is all that was done to it and what was answered. A copy
takes over the past of its source, and what happens to either of them afterwards is in its own past only;
a set that is collected from a list has the insertions of the list's items in its past. Objects are told
apart by their identity alone, so that two objects with one key are two items.
-/

namespace Chronicle

namespace EntitySet

/-- What is done to a set. -/
inductive Edit where
  | insert (r : Ref)
  | remove (r : Ref)
deriving DecidableEq

/-- The set after something is done to it, and the answer. -/
def apply (set : EntitySet) : Edit → EntitySet × Bool
  | .insert r => set.insert r
  | .remove r => set.remove r

/-- All that was done to a set, with the answers. -/
abbrev Past := List (Edit × Bool)

/-- Whether an object was inserted and not removed since. -/
def Remains (past : Past) (r : Ref) : Prop :=
  ∃ (i : Nat) (x : Ref) (answer : Bool), past[i]? = some (.insert x, answer) ∧
    x.identity = r.identity ∧ ∀ (j : Nat) (y : Ref) (answer : Bool), i < j →
      past[j]? = some (.remove y, answer) → y.identity ≠ r.identity

/-- Whether a moment is that of the latest successful insertion of an object. -/
structure InsertedLast (past : Past) (r : Ref) (moment : Nat) : Prop where
  inserted : past[moment]? = some (.insert r, true)
  last : ∀ i x, moment < i → past[i]? = some (.insert x, true) → x.identity ≠ r.identity

/-- Whether items stand in the order of their latest successful insertions. -/
structure InOrder (past : Past) (items : List Ref) : Prop where
  inserted : ∀ r ∈ items, ∃ moment, InsertedLast past r moment
  ordered : items.Pairwise fun earlier later =>
    ∃ i j, i < j ∧ InsertedLast past earlier i ∧ InsertedLast past later j

/-- Whether an object is at a place of a list and at none before it. -/
structure FirstAt (items : List Ref) (r : Ref) (place : Nat) : Prop where
  here : items[place]? = some r
  first : ∀ i x, i < place → items[i]? = some x → x.identity ≠ r.identity

/-- Whether of each object in a list the first occurrence is kept, and nothing else, in their order. -/
structure KeepsFirst (items kept : List Ref) : Prop where
  mem_iff : ∀ r, r ∈ kept ↔ ∃ place, FirstAt items r place
  ordered : kept.Pairwise fun earlier later =>
    ∃ i j, i < j ∧ FirstAt items earlier i ∧ FirstAt items later j

/-- A set with its past. -/
structure Traced where
  set : EntitySet := {}
  past : Past := []

namespace Traced

/-- A set with its past after something more is done to it. -/
def apply (t : Traced) (edit : Edit) : Traced where
  set := (t.set.apply edit).1
  past := t.past ++ [(edit, (t.set.apply edit).2)]

/-- The set that is collected from a list, and the insertions of the list's items. -/
def ofList (items : List Ref) : Traced where
  set := EntitySet.ofList items
  past := ((items.map Edit.insert).foldl Traced.apply {}).past

/-- Whether a set is what its past makes it. -/
structure Faithful (t : Traced) : Prop where
  distinct : (t.set.items.map Ref.identity).Nodup
  contains_iff : ∀ r, t.set.contains r = true ↔ Remains t.past r
  inOrder : InOrder t.past t.set.items

end Traced

end EntitySet

/-- What a program does with the sets that it has under names. -/
inductive SetAction where
  | collect (name : String) (items : List Ref)
  | copy (source name : String)
  | change (name : String) (edit : EntitySet.Edit)

namespace SetAction

open EntitySet (Traced)

/-- The sets of a program after an action. -/
def perform (sets : String → Traced) : SetAction → String → Traced
  | .collect name items => Function.update sets name (.ofList items)
  | .copy source name => Function.update sets name (sets source)
  | .change name edit => Function.update sets name ((sets name).apply edit)

/-- The sets of a program that starts with empty ones. -/
def performAll (actions : List SetAction) : String → Traced := actions.foldl perform fun _ => {}

end SetAction

/-- What is at a place of a list that goes on was there before, or is the last item. -/
theorem getElem?_concat_eq_some_iff {α : Type} {xs : List α} {x y : α} {i : Nat} :
    (xs ++ [x])[i]? = some y ↔ xs[i]? = some y ∨ i = xs.length ∧ x = y := by
  rcases lt_trichotomy i xs.length with hlt | rfl | hgt
  · rw [List.getElem?_append_left hlt, or_iff_left fun h => hlt.ne h.1]
  · rw [List.getElem?_concat_length, List.getElem?_eq_none le_rfl, Option.some.injEq]
    simp only [reduceCtorEq, true_and, false_or]
  · have hlength : (xs ++ [x]).length ≤ i := by
      rw [List.length_append, List.length_singleton]
      exact hgt
    rw [List.getElem?_eq_none hlength, List.getElem?_eq_none hgt.le, or_iff_left fun h => hgt.ne' h.1]

namespace EntitySet

variable {set : EntitySet} {past : Past} {items : List Ref} {x r : Ref} {answer : Bool} {moment : Nat}

/-! ## Histories that go on -/

theorem not_remains_nil : ¬ Remains [] r := by
  rintro ⟨i, x, answer, hi, -⟩
  simp at hi

/-- After an insertion there is what was there, and the object. -/
theorem remains_concat_insert :
    Remains (past ++ [(.insert x, answer)]) r ↔ Remains past r ∨ x.identity = r.identity := by
  constructor
  · rintro ⟨i, y, a, hi, hy, hlater⟩
    rcases getElem?_concat_eq_some_iff.mp hi with hi | ⟨-, heq⟩
    · refine Or.inl ⟨i, y, a, hi, hy, fun j z b hij hj => ?_⟩
      exact hlater j z b hij (getElem?_concat_eq_some_iff.mpr (Or.inl hj))
    · cases heq
      exact Or.inr hy
  · rintro (⟨i, y, a, hi, hy, hlater⟩ | hx)
    · refine ⟨i, y, a, getElem?_concat_eq_some_iff.mpr (Or.inl hi), hy, fun j z b hij hj => ?_⟩
      rcases getElem?_concat_eq_some_iff.mp hj with hj | ⟨-, heq⟩
      · exact hlater j z b hij hj
      · cases heq
    · refine ⟨past.length, x, answer, getElem?_concat_eq_some_iff.mpr (Or.inr ⟨rfl, rfl⟩), hx, ?_⟩
      intro j z b hlt hj
      rcases getElem?_concat_eq_some_iff.mp hj with hj | ⟨rfl, -⟩
      · exact absurd (List.getElem?_eq_some_iff.mp hj).1 hlt.not_gt
      · exact absurd hlt (lt_irrefl _)

/-- After a removal there is what was there, without the object. -/
theorem remains_concat_remove :
    Remains (past ++ [(.remove x, answer)]) r ↔ Remains past r ∧ x.identity ≠ r.identity := by
  constructor
  · rintro ⟨i, y, a, hi, hy, hlater⟩
    rcases getElem?_concat_eq_some_iff.mp hi with hi | ⟨-, heq⟩
    · refine ⟨⟨i, y, a, hi, hy, fun j z b hij hj => ?_⟩, ?_⟩
      · exact hlater j z b hij (getElem?_concat_eq_some_iff.mpr (Or.inl hj))
      · exact hlater past.length x answer (List.getElem?_eq_some_iff.mp hi).1
          (getElem?_concat_eq_some_iff.mpr (Or.inr ⟨rfl, rfl⟩))
    · cases heq
  · rintro ⟨⟨i, y, a, hi, hy, hlater⟩, hx⟩
    refine ⟨i, y, a, getElem?_concat_eq_some_iff.mpr (Or.inl hi), hy, fun j z b hij hj => ?_⟩
    rcases getElem?_concat_eq_some_iff.mp hj with hj | ⟨-, heq⟩
    · exact hlater j z b hij hj
    · cases heq
      exact hx

theorem InsertedLast.lt (h : InsertedLast past r moment) : moment < past.length :=
  (List.getElem?_eq_some_iff.mp h.inserted).1

/-- The latest successful insertion stays the latest if the object is not inserted successfully again. -/
theorem InsertedLast.concat (h : InsertedLast past r moment) {event : Edit × Bool}
    (hevent : ∀ x, event = (.insert x, true) → x.identity ≠ r.identity) :
    InsertedLast (past ++ [event]) r moment where
  inserted := getElem?_concat_eq_some_iff.mpr (Or.inl h.inserted)
  last := by
    intro i x hlt hi
    rcases getElem?_concat_eq_some_iff.mp hi with hi | ⟨-, heq⟩
    · exact h.last i x hlt hi
    · exact hevent x heq

theorem insertedLast_concat_self :
    InsertedLast (past ++ [(.insert r, true)]) r past.length where
  inserted := getElem?_concat_eq_some_iff.mpr (Or.inr ⟨rfl, rfl⟩)
  last := by
    intro i x hlt hi
    have hle : i < past.length + 1 := by
      simpa using (List.getElem?_eq_some_iff.mp hi).1
    omega

namespace InOrder

theorem sublist {kept : List Ref} (h : InOrder past items) (hkept : kept.Sublist items) :
    InOrder past kept where
  inserted r hr := h.inserted r (hkept.subset hr)
  ordered := h.ordered.sublist hkept

/-- The order does not change by anything but a successful insertion of one of the items. -/
theorem concat (h : InOrder past items) {event : Edit × Bool}
    (hevent : ∀ x, event = (.insert x, true) → ∀ r ∈ items, x.identity ≠ r.identity) :
    InOrder (past ++ [event]) items where
  inserted := by
    intro r hr
    obtain ⟨moment, hmoment⟩ := h.inserted r hr
    exact ⟨moment, hmoment.concat fun x hx => hevent x hx r hr⟩
  ordered := by
    refine h.ordered.imp_of_mem fun {earlier later} hearlier hlater ⟨i, j, hlt, hi, hj⟩ => ?_
    exact ⟨i, j, hlt, hi.concat fun x hx => hevent x hx earlier hearlier,
      hj.concat fun x hx => hevent x hx later hlater⟩

/-- An object that is inserted successfully comes last. -/
theorem concat_insert (h : InOrder past items) (hnew : ∀ r ∈ items, x.identity ≠ r.identity) :
    InOrder (past ++ [(.insert x, true)]) (items ++ [x]) := by
  have hevent : ∀ y : Ref, ((.insert x, true) : Edit × Bool) = (.insert y, true) →
      ∀ r ∈ items, y.identity ≠ r.identity := by
    intro y hy
    cases hy
    exact hnew
  have hold : InOrder (past ++ [(.insert x, true)]) items := h.concat hevent
  refine ⟨fun r hr => ?_, List.pairwise_append.mpr
    ⟨hold.ordered, List.pairwise_singleton _ _, fun r hr y hy => ?_⟩⟩
  · rcases List.mem_append.mp hr with hr | hr
    · exact hold.inserted r hr
    · obtain rfl := List.mem_singleton.mp hr
      exact ⟨past.length, insertedLast_concat_self⟩
  · obtain rfl := List.mem_singleton.mp hy
    obtain ⟨moment, hmoment⟩ := h.inserted r hr
    exact ⟨moment, past.length, hmoment.lt, hmoment.concat fun z hz => hevent z hz r hr,
      insertedLast_concat_self⟩

end InOrder

/-! ## One edit -/

theorem contains_iff_mem : set.contains r = true ↔ r.identity ∈ set.items.map Ref.identity := by
  simp [contains]

theorem insert_of_contains (h : set.contains x = true) : set.insert x = (set, false) := if_pos h

theorem contains_insert :
    (set.insert x).1.contains r = true ↔ set.contains r = true ∨ x.identity = r.identity := by
  unfold insert
  split_ifs with hknown
  · refine (or_iff_left_of_imp fun hx => ?_).symm
    rw [contains, ← hx]
    exact hknown
  · simp [contains]

theorem identities_remove :
    (set.remove x).1.items.map Ref.identity = (set.items.map Ref.identity).erase x.identity := by
  have hlike : (fun r : Ref => decide (r.identity = x.identity)) = (x.identity == ·) ∘ Ref.identity := by
    funext r
    rw [Function.comp_apply, beq_eq_decide, decide_eq_decide, eq_comm]
  rw [List.erase_eq_eraseP, List.eraseP_map, ← hlike, remove]

/-- A removal takes the object out if the set does not hold it twice. -/
theorem contains_remove (h : (set.items.map Ref.identity).Nodup) :
    (set.remove x).1.contains r = true ↔ set.contains r = true ∧ x.identity ≠ r.identity := by
  rw [contains_iff_mem, contains_iff_mem, identities_remove, h.mem_erase_iff, and_comm, ne_comm]

/-- An insertion or removal is answered by whether it changes what the set contains. -/
theorem answer_iff (h : (set.items.map Ref.identity).Nodup) (edit : Edit) :
    (set.apply edit).2 = true ↔ ∃ r, (set.apply edit).1.contains r ≠ set.contains r := by
  cases edit with
  | insert x =>
      change (set.insert x).2 = true ↔ ∃ r, (set.insert x).1.contains r ≠ set.contains r
      by_cases hknown : set.contains x = true
      · rw [insert_of_contains hknown]
        simp
      · have hanswer : (set.insert x).2 = true := by
          rw [insert, if_neg hknown]
        have hafter : (set.insert x).1.contains x = true := contains_insert.mpr (Or.inr rfl)
        exact iff_of_true hanswer ⟨x, fun hsame => hknown (hsame ▸ hafter)⟩
  | remove x =>
      change set.contains x = true ↔ ∃ r, (set.remove x).1.contains r ≠ set.contains r
      constructor
      · intro hknown
        refine ⟨x, fun hsame => ?_⟩
        rw [hknown, contains_remove h] at hsame
        exact hsame.2 rfl
      -- If the object is not in the set, nothing that is in the set is the object.
      · rintro ⟨r, hdiffers⟩
        by_contra hnew
        refine hdiffers (Bool.eq_iff_iff.mpr ((contains_remove h).trans (and_iff_left_of_imp ?_)))
        intro hr hx
        rw [contains_iff_mem, hx, ← contains_iff_mem] at hnew
        exact hnew hr

namespace Traced

variable {t : Traced}

theorem faithful_empty : Faithful {} where
  distinct := List.nodup_nil
  contains_iff _ := iff_of_false Bool.false_ne_true not_remains_nil
  inOrder := ⟨fun _ hr => absurd hr List.not_mem_nil, List.Pairwise.nil⟩

theorem Faithful.insert (h : t.Faithful) (x : Ref) : (t.apply (.insert x)).Faithful where
  distinct := nodup_insert h.distinct x
  contains_iff r := contains_insert.trans
    ((or_congr_left (h.contains_iff r)).trans remains_concat_insert.symm)
  inOrder := by
    change InOrder (t.past ++ [(.insert x, (t.set.insert x).2)]) (t.set.insert x).1.items
    unfold EntitySet.insert
    split_ifs with hknown
    -- What is there already keeps its place: the insertion is answered by `false`.
    · refine h.inOrder.concat fun y hy => ?_
      cases hy
    · refine h.inOrder.concat_insert fun r hr hx => hknown ?_
      rw [contains_iff_mem, hx]
      exact List.mem_map_of_mem hr

theorem Faithful.remove (h : t.Faithful) (x : Ref) : (t.apply (.remove x)).Faithful where
  distinct := by
    change ((t.set.remove x).1.items.map Ref.identity).Nodup
    rw [identities_remove]
    exact h.distinct.erase _
  contains_iff r := (contains_remove h.distinct).trans
    ((and_congr_left' (h.contains_iff r)).trans remains_concat_remove.symm)
  inOrder := by
    refine (h.inOrder.concat fun y hy => ?_).sublist List.eraseP_sublist
    cases hy

/-- Whatever is done to a set, it is what its past makes it. -/
theorem Faithful.apply (h : t.Faithful) : ∀ edit, (t.apply edit).Faithful
  | .insert x => h.insert x
  | .remove x => h.remove x

theorem ofList_eq (items : List Ref) :
    ofList items = (items.map Edit.insert).foldl Traced.apply {} := by
  have hset : ((items.map Edit.insert).foldl Traced.apply {}).set = EntitySet.ofList items := by
    rw [List.foldl_map]
    exact (List.foldl_hom Traced.set fun t x => rfl).symm
  rw [ofList, ← hset]

theorem faithful_ofList (items : List Ref) : (ofList items).Faithful := by
  rw [ofList_eq]
  exact List.foldlRecOn _ _ faithful_empty fun t ht edit _ => ht.apply edit

end Traced

/-! ## Lists with repetitions -/

theorem ofList_concat (items : List Ref) (x : Ref) :
    ofList (items ++ [x]) = ((ofList items).insert x).1 := by
  rw [ofList, List.foldl_append]
  rfl

theorem contains_ofList (items : List Ref) (r : Ref) :
    (ofList items).contains r = true ↔ r.identity ∈ items.map Ref.identity := by
  induction items using List.reverseRecOn with
  | nil => simp [ofList, contains]
  | append_singleton items x ih =>
      rw [ofList_concat, contains_insert, ih, List.map_append, List.mem_append, List.map_singleton,
        List.mem_singleton, eq_comm]

theorem not_firstAt_nil : ¬ FirstAt [] r moment := by
  rintro ⟨hhere, -⟩
  cases hhere

theorem FirstAt.lt (h : FirstAt items r moment) : moment < items.length :=
  (List.getElem?_eq_some_iff.mp h.here).1

/-- An object is first at the end of a list exactly if it is not in the list before. -/
theorem firstAt_concat : FirstAt (items ++ [x]) r moment ↔
    FirstAt items r moment ∨
      moment = items.length ∧ x = r ∧ x.identity ∉ items.map Ref.identity := by
  constructor
  · rintro ⟨hhere, hfirst⟩
    rcases getElem?_concat_eq_some_iff.mp hhere with hhere | ⟨rfl, rfl⟩
    · exact Or.inl ⟨hhere, fun i y hi hy =>
        hfirst i y hi (getElem?_concat_eq_some_iff.mpr (Or.inl hy))⟩
    · refine Or.inr ⟨rfl, rfl, fun hmem => ?_⟩
      obtain ⟨y, hy, hsame⟩ := List.mem_map.mp hmem
      obtain ⟨i, hi⟩ := List.mem_iff_getElem?.mp hy
      exact hfirst i y (List.getElem?_eq_some_iff.mp hi).1
        (getElem?_concat_eq_some_iff.mpr (Or.inl hi)) hsame
  · rintro (h | ⟨rfl, rfl, hnew⟩)
    · refine ⟨getElem?_concat_eq_some_iff.mpr (Or.inl h.here), fun i y hi hy => ?_⟩
      rcases getElem?_concat_eq_some_iff.mp hy with hy | ⟨rfl, -⟩
      · exact h.first i y hi hy
      · exact absurd h.lt hi.not_gt
    · refine ⟨getElem?_concat_eq_some_iff.mpr (Or.inr ⟨rfl, rfl⟩), fun i y hi hy hsame => hnew ?_⟩
      rcases getElem?_concat_eq_some_iff.mp hy with hy | ⟨rfl, -⟩
      · exact hsame ▸ List.mem_map_of_mem (List.mem_of_getElem? hy)
      · exact absurd hi (lt_irrefl _)

namespace KeepsFirst

variable {kept : List Ref}

theorem concat_of_mem (h : KeepsFirst items kept) (hx : x.identity ∈ items.map Ref.identity) :
    KeepsFirst (items ++ [x]) kept := by
  have hsame : ∀ r place, FirstAt (items ++ [x]) r place ↔ FirstAt items r place :=
    fun r place => firstAt_concat.trans (or_iff_left fun hnew => hnew.2.2 hx)
  exact ⟨by simpa only [hsame] using h.mem_iff, by simpa only [hsame] using h.ordered⟩

theorem concat_of_not_mem (h : KeepsFirst items kept) (hx : x.identity ∉ items.map Ref.identity) :
    KeepsFirst (items ++ [x]) (kept ++ [x]) where
  mem_iff := by
    intro r
    simp only [List.mem_append, List.mem_singleton, h.mem_iff, firstAt_concat, exists_or,
      exists_eq_left, hx, not_false_eq_true, and_true, eq_comm]
  ordered := by
    refine List.pairwise_append.mpr ⟨?_, List.pairwise_singleton _ _, fun r hr y hy => ?_⟩
    · refine h.ordered.imp fun ⟨i, j, hlt, hi, hj⟩ => ?_
      exact ⟨i, j, hlt, firstAt_concat.mpr (Or.inl hi), firstAt_concat.mpr (Or.inl hj)⟩
    · obtain rfl := List.mem_singleton.mp hy
      obtain ⟨place, hplace⟩ := (h.mem_iff r).mp hr
      exact ⟨place, items.length, hplace.lt, firstAt_concat.mpr (Or.inl hplace),
        firstAt_concat.mpr (Or.inr ⟨rfl, rfl, hx⟩)⟩

end KeepsFirst

/-- A set that is collected from a list keeps the first occurrence of each object. -/
theorem keepsFirst_ofList (items : List Ref) : KeepsFirst items (ofList items).items := by
  induction items using List.reverseRecOn with
  | nil =>
      refine ⟨fun r => iff_of_false List.not_mem_nil ?_, List.Pairwise.nil⟩
      exact fun ⟨place, hplace⟩ => not_firstAt_nil hplace
  | append_singleton items x ih =>
      rw [ofList_concat, insert]
      split_ifs with hx
      · exact ih.concat_of_mem ((contains_ofList items x).mp hx)
      · exact ih.concat_of_not_mem fun hmem => hx ((contains_ofList items x).mpr hmem)

/-! ## Conversion -/

variable {target : String}

/-- A collection of objects of a type becomes the set of the first occurrences. -/
theorem accept?_collection (kind : CollectionKind) (h : ∀ r ∈ items, r.type.structName = target) :
    (FieldType.set target).accept? (.collection kind items) = some (ofList items).toValue :=
  if_pos (FieldType.all_structName_iff.mpr h)

/-- A set of objects of a type that becomes a value and is taken back is the same set. -/
theorem accept?_toValue (hset : (set.items.map Ref.identity).Nodup)
    (h : ∀ r ∈ set.items, r.type.structName = target) :
    (FieldType.set target).accept? set.toValue = some set.toValue :=
  (FieldType.Holds.set h hset).converts.accept?_eq

end EntitySet

namespace SetAction

open EntitySet (Traced Edit KeepsFirst)

variable {sets : String → Traced}

/-- Whatever a program does, its sets are what their pasts make them. -/
theorem faithful_perform (h : ∀ name, (sets name).Faithful) (action : SetAction) (name : String) :
    (perform sets action name).Faithful := by
  have hupdate : ∀ (changed : String) (t : Traced), t.Faithful →
      (Function.update sets changed t name).Faithful := by
    intro changed t ht
    rw [Function.update_apply]
    split_ifs
    · exact ht
    · exact h name
  cases action with
  | collect changed items => exact hupdate changed _ (Traced.faithful_ofList items)
  | copy source changed => exact hupdate changed _ (h source)
  | change changed edit => exact hupdate changed _ ((h changed).apply edit)

theorem faithful_performAll (actions : List SetAction) (name : String) :
    (performAll actions name).Faithful :=
  List.foldlRecOn (motive := fun sets => ∀ name, (sets name).Faithful) actions perform
    (fun _ => Traced.faithful_empty) (fun _ hsets action _ => faithful_perform hsets action) name

end SetAction

open EntitySet (Edit KeepsFirst) in
/-- Sets of objects are ordered by insertion. Whatever a program does with its sets, each of them holds no
object twice, contains what was inserted and not removed since, and has its items in the order of their
latest successful insertions. An insertion or removal answers whether it changes what the set contains. A
set of objects of a type that becomes a value and is taken back is the same set, and a collection in which
objects of the type are repeated becomes the set of their first occurrences in their order. -/
theorem sets_ordered_by_insertion (actions : List SetAction) (name : String) :
    let t := SetAction.performAll actions name
    t.Faithful ∧
      (∀ edit : Edit, (t.set.apply edit).2 = true ↔
        ∃ r, (t.set.apply edit).1.contains r ≠ t.set.contains r) ∧
      ∀ target : String,
        ((∀ r answer, (Edit.insert r, answer) ∈ t.past → r.type.structName = target) →
          (FieldType.set target).accept? t.set.toValue = some t.set.toValue) ∧
        ∀ (kind : CollectionKind) (items : List Ref), (∀ r ∈ items, r.type.structName = target) →
          ∃ back : EntitySet,
            (FieldType.set target).accept? (.collection kind items) = some back.toValue ∧
              KeepsFirst items back.items := by
  intro t
  have hfaithful : t.Faithful := SetAction.faithful_performAll actions name
  refine ⟨hfaithful, EntitySet.answer_iff hfaithful.distinct, fun target => ⟨fun htyped => ?_, ?_⟩⟩
  · have hitems : ∀ r ∈ t.set.items, r.type.structName = target := by
      intro r hr
      obtain ⟨moment, hmoment⟩ := hfaithful.inOrder.inserted r hr
      exact htyped r true (List.mem_of_getElem? hmoment.inserted)
    exact EntitySet.accept?_toValue hfaithful.distinct hitems
  · intro kind items htyped
    exact ⟨EntitySet.ofList items, EntitySet.accept?_collection kind htyped,
      EntitySet.keepsFirst_ofList items⟩

namespace Sample

/-- A set of twins, and a copy in which one of them is removed and inserted again. -/
def twinActions : List SetAction :=
  [.collect "pets" ([2, 3, 2].map petRef), .copy "pets" "guests", .change "guests" (.remove (petRef 2)),
    .change "guests" (.insert (petRef 2)), .change "pets" (.insert (petRef 4))]

end Sample

open EntitySet (Edit KeepsFirst) in
open Sample in
/-- Twins are two items of a set. The one that is inserted again comes last in the copy and stays where it
is in the source; the copy is taken back as it is, and a list with repetitions as a set. -/
theorem twins_ordered_by_insertion :
    let pets := SetAction.performAll twinActions "pets"
    let guests := SetAction.performAll twinActions "guests"
    (petRef 2).key = (petRef 3).key ∧
      pets.set.items = [2, 3, 4].map petRef ∧ guests.set.items = [3, 2].map petRef ∧
      (∀ r answer, (Edit.insert r, answer) ∈ guests.past → r.type.structName = "Pet") ∧
      (FieldType.set "Pet").accept? guests.set.toValue = some guests.set.toValue ∧
      (∀ r ∈ [3, 2, 3].map petRef, r.type.structName = "Pet") ∧
      ∃ back : EntitySet,
        (FieldType.set "Pet").accept? (.collection .list ([3, 2, 3].map petRef)) = some back.toValue ∧
          KeepsFirst ([3, 2, 3].map petRef) back.items := by
  intro pets guests
  have hpast : guests.past =
      [(.insert (petRef 2), true), (.insert (petRef 3), true), (.insert (petRef 2), false),
        (.remove (petRef 2), true), (.insert (petRef 2), true)] := by
    decide +kernel
  have hinserted : ∀ r answer, (Edit.insert r, answer) ∈ guests.past → r.type.structName = "Pet" := by
    intro r answer hmem
    have hpet : r = petRef 2 ∨ r = petRef 3 := by
      rw [hpast] at hmem
      grind
    rcases hpet with rfl | rfl <;> rfl
  have hlisted : ∀ r ∈ [3, 2, 3].map petRef, r.type.structName = "Pet" := by
    decide +kernel
  obtain ⟨-, -, hconversion⟩ := sets_ordered_by_insertion twinActions "guests"
  obtain ⟨hback, hlist⟩ := hconversion "Pet"
  exact ⟨rfl, by decide +kernel, by decide +kernel, hinserted, hback hinserted, hlisted,
    hlist .list _ hlisted⟩

end Chronicle
