import Chronicle.Diff.Query
import Mathlib.Tactic.Common

/-!
# Proper diffs

A diff is proper if, at every level, the plain changes have distinct names, the nested diffs stand in
the strict order of their names, and all names are legal. Every operation on diffs keeps this, and on
proper diffs every look-up after an operation is told by look-ups before it.

## Implementation notes

Which names are legal is a parameter: the laws of merging need no restriction on names, while paths are
only unambiguous if no name contains a dot.
-/

namespace Chronicle

namespace Diff

/-- Whether the plain changes of every level have distinct names, its nested diffs the strict order of
theirs, and all names are legal. -/
def Proper (legal : String → Prop) : Diff → Prop
  | .plain changes =>
    (changes.map Change.name).Nodup ∧ ∀ name ∈ changes.map Change.name, legal name
  | .nest name nested rest =>
    legal name ∧ nested.Proper legal ∧ (∀ key ∈ rest.embedded.map Prod.fst, name < key) ∧
      rest.Proper legal

/-- Whether a diff is proper, whatever its names are. -/
abbrev Orderly (d : Diff) : Prop := d.Proper fun _ => True

variable {legal : String → Prop}

/-! ## Plain changes -/

theorem mem_names_record (change : Change) (changes : List Change) (name : String) :
    name ∈ (record change changes).map Change.name ↔
      name = change.name ∨ name ∈ changes.map Change.name := by
  induction changes with
  | nil => simp [record]
  | cons c rest ih =>
      by_cases h : c.name = change.name
      · simp [record, h]
      · simp only [record, if_neg h, List.map_cons, List.mem_cons, ih, or_left_comm]

theorem nodup_record (change : Change) {changes : List Change}
    (h : (changes.map Change.name).Nodup) : ((record change changes).map Change.name).Nodup := by
  induction changes with
  | nil => simp [record]
  | cons c rest ih =>
      obtain ⟨hc, hrest⟩ := List.nodup_cons.mp h
      by_cases heq : c.name = change.name
      · rw [record, if_pos heq, List.map_cons]
        exact List.nodup_cons.mpr ⟨hc, hrest⟩
      · simp only [record, if_neg heq, List.map_cons, List.nodup_cons]
        refine ⟨fun hmem => ?_, ih hrest⟩
        rcases (mem_names_record change rest c.name).mp hmem with h | h
        · exact heq h
        · exact hc h

/-- A recorded change answers for its name and for no other. -/
theorem plainOld?_record (change : Change) (changes : List Change) (name : String) :
    plainOld? (record change changes) name =
      if change.name = name then some change.old else plainOld? changes name := by
  induction changes with
  | nil => by_cases h : change.name = name <;> simp [record, plainOld?, h]
  | cons c rest ih =>
      by_cases hc : c.name = change.name
      · by_cases h : change.name = name <;> simp [record, plainOld?, hc, h]
      · simp only [record, if_neg hc]
        by_cases h : c.name = name
        · have hne : change.name ≠ name := fun he => hc (h.trans he.symm)
          simp [plainOld?, h, hne]
        · simpa [plainOld?, h] using ih

theorem plainOld?_isSome_iff (changes : List Change) (name : String) :
    (plainOld? changes name).isSome ↔ name ∈ changes.map Change.name := by
  simp [plainOld?]

theorem plainOld?_foldl_record (later changes : List Change) (name : String)
    (h : (later.map Change.name).Nodup) :
    plainOld? (later.foldl (fun acc c => record c acc) changes) name =
      (plainOld? later name).or (plainOld? changes name) := by
  induction later generalizing changes with
  | nil => simp [plainOld?]
  | cons c rest ih =>
      obtain ⟨hc, hrest⟩ := List.nodup_cons.mp h
      rw [List.foldl_cons, ih (record c changes) hrest, plainOld?_record]
      by_cases heq : c.name = name
      · have hnone : plainOld? rest name = none := by
          rw [← Option.not_isSome_iff_eq_none, plainOld?_isSome_iff]
          exact heq ▸ hc
        rw [hnone, if_pos heq]
        simp [plainOld?, heq]
      · simp [plainOld?, heq]

theorem mem_names_foldl_record (later changes : List Change) (name : String) :
    name ∈ (later.foldl (fun acc c => record c acc) changes).map Change.name ↔
      name ∈ later.map Change.name ∨ name ∈ changes.map Change.name := by
  induction later generalizing changes with
  | nil => simp
  | cons c rest ih =>
      rw [List.foldl_cons, ih, mem_names_record, List.map_cons, List.mem_cons]
      tauto

theorem plainOld?_of_mem {changes : List Change} (h : (changes.map Change.name).Nodup)
    {change : Change} (hmem : change ∈ changes) :
    plainOld? changes change.name = some change.old := by
  induction changes with
  | nil => cases hmem
  | cons first rest ih =>
      obtain ⟨hfirst, hrest⟩ := List.nodup_cons.mp h
      rcases List.mem_cons.mp hmem with rfl | hmem
      · simp [plainOld?]
      · have hne : first.name ≠ change.name := fun heq => hfirst (heq ▸ List.mem_map_of_mem hmem)
        simpa [plainOld?, hne] using ih hrest hmem

theorem record_of_known {change : Change} {changes : List Change}
    (h : plainOld? changes change.name = some change.old) : record change changes = changes := by
  induction changes with
  | nil => cases h
  | cons first rest ih =>
      by_cases hname : first.name = change.name
      · have hold : first.old = change.old := by simpa [plainOld?, hname] using h
        rw [record, if_pos hname, ← hold]
      · rw [record, if_neg hname, ih (by simpa [plainOld?, hname] using h)]

theorem record_of_not_mem {change : Change} {changes : List Change}
    (h : change.name ∉ changes.map Change.name) : record change changes = changes ++ [change] := by
  induction changes with
  | nil => rfl
  | cons first rest ih =>
      rw [List.map_cons, List.mem_cons, not_or] at h
      rw [record, if_neg (Ne.symm h.1), ih h.2, List.cons_append]

theorem names_record_of_mem {change : Change} {changes : List Change}
    (h : change.name ∈ changes.map Change.name) :
    (record change changes).map Change.name = changes.map Change.name := by
  induction changes with
  | nil => cases h
  | cons first rest ih =>
      by_cases hname : first.name = change.name
      · rw [record, if_pos hname, List.map_cons, List.map_cons]
      · have hrest : change.name ∈ rest.map Change.name :=
          (List.mem_cons.mp h).resolve_left (Ne.symm hname)
        rw [record, if_neg hname, List.map_cons, ih hrest, List.map_cons]

/-- A recorded change keeps the place of its name, or it comes last. -/
theorem names_record_sublist (change : Change) (changes : List Change) :
    ((record change changes).map Change.name).Sublist (changes.map Change.name ++ [change.name]) := by
  by_cases h : change.name ∈ changes.map Change.name
  · rw [names_record_of_mem h]
    exact List.sublist_append_left _ _
  · rw [record_of_not_mem h, List.map_append]
    exact List.Sublist.refl _

/-! ## The two views of an operation -/

@[simp] theorem changes_mapChanges (d : Diff) (f : List Change → List Change) :
    (d.mapChanges f).changes = f d.changes := by
  induction d with
  | plain changes => rfl
  | nest name nested rest _ ih => exact ih

@[simp] theorem embedded_mapChanges (d : Diff) (f : List Change → List Change) :
    (d.mapChanges f).embedded = d.embedded := by
  induction d with
  | plain changes => rfl
  | nest name nested rest _ ih => simp only [mapChanges, embedded, ih]

@[simp] theorem nested?_mapChanges (d : Diff) (f : List Change → List Change) (key : String) :
    (d.mapChanges f).nested? key = d.nested? key := by
  induction d with
  | plain changes => rfl
  | nest name nested rest _ ih => simp only [mapChanges, nested?, ih]

theorem changes_addAll (d : Diff) (later : List Change) :
    (d.addAll later).changes = later.foldl (fun acc c => record c acc) d.changes := by
  induction later generalizing d with
  | nil => rfl
  | cons c rest ih =>
      change ((d.add c).addAll rest).changes = _
      rw [ih, add, changes_mapChanges]
      rfl

@[simp] theorem embedded_addAll (d : Diff) (later : List Change) :
    (d.addAll later).embedded = d.embedded := by
  induction later generalizing d with
  | nil => rfl
  | cons c rest ih => exact (ih (d.add c)).trans (embedded_mapChanges d (record c))

@[simp] theorem nested?_addAll (d : Diff) (later : List Change) (key : String) :
    (d.addAll later).nested? key = d.nested? key := by
  induction later generalizing d with
  | nil => rfl
  | cons c rest ih => exact (ih (d.add c)).trans (nested?_mapChanges d (record c) key)

@[simp] theorem changes_upsert (d : Diff) (name : String) (present : Diff → Diff) (absent : Diff) :
    (d.upsert name present absent).changes = d.changes := by
  induction d with
  | plain changes => rfl
  | nest n nested rest _ ih =>
      unfold upsert
      split_ifs
      · rfl
      · rfl
      · exact ih

theorem mem_keys_upsert (d : Diff) (name : String) (present : Diff → Diff) (absent : Diff)
    (key : String) :
    key ∈ (d.upsert name present absent).embedded.map Prod.fst ↔
      key = name ∨ key ∈ d.embedded.map Prod.fst := by
  induction d with
  | plain changes => simp [upsert, embedded]
  | nest n nested rest _ ih =>
      unfold upsert
      split_ifs with h
      · simp [embedded, h]
      · simp [embedded]
      · simp only [embedded, List.map_cons, List.mem_cons, ih, or_left_comm]

theorem nested?_isSome_iff (d : Diff) (key : String) :
    (d.nested? key).isSome ↔ key ∈ d.embedded.map Prod.fst := by
  induction d with
  | plain changes => simp [nested?, embedded]
  | nest n nested rest _ ih =>
      by_cases h : n = key
      · simp [nested?, embedded, h]
      · simp [nested?, embedded, h, ih, eq_comm (a := key)]

theorem nested?_eq_none (d : Diff) (key : String) (h : key ∉ d.embedded.map Prod.fst) :
    d.nested? key = none := by
  rw [← Option.not_isSome_iff_eq_none, nested?_isSome_iff]
  exact h

theorem sizeOf_nested? {d inner : Diff} {key : String} (h : d.nested? key = some inner) :
    sizeOf inner < sizeOf d := by
  induction d with
  | plain changes => cases h
  | nest name nested rest _ ih =>
      rw [nest.sizeOf_spec]
      by_cases hname : name = key
      · rw [nested?, if_pos hname, Option.some.injEq] at h
        rw [h]
        omega
      · rw [nested?, if_neg hname] at h
        have := ih h
        omega

theorem mem_topNames_add (d : Diff) (change : Change) (name : String) :
    name ∈ (d.add change).topNames ↔ name = change.name ∨ name ∈ d.topNames := by
  simp only [topNames, add, changes_mapChanges, embedded_mapChanges, List.mem_append,
    mem_names_record, or_assoc]

theorem mem_topNames_addEmbedded (d : Diff) (key : String) (nested : Diff) (name : String) :
    name ∈ (d.addEmbedded key nested).topNames ↔ name = key ∨ name ∈ d.topNames := by
  simp only [topNames, addEmbedded, changes_upsert, List.mem_append, mem_keys_upsert, or_left_comm]

/-! ## What operations keep -/

theorem Proper.nodup {d : Diff} (h : d.Proper legal) : (d.changes.map Change.name).Nodup := by
  induction d with
  | plain changes => exact h.1
  | nest name nested rest _ ih => exact ih h.2.2.2

theorem Proper.legal_change {d : Diff} (h : d.Proper legal) :
    ∀ name ∈ d.changes.map Change.name, legal name := by
  induction d with
  | plain changes => exact h.2
  | nest name nested rest _ ih => exact ih h.2.2.2

theorem Proper.nested {d inner : Diff} {key : String} (h : d.Proper legal)
    (hkey : d.nested? key = some inner) : legal key ∧ inner.Proper legal := by
  induction d with
  | plain changes => cases hkey
  | nest name nested rest _ ih =>
      obtain ⟨hname, hnested, -, hrest⟩ := h
      by_cases heq : name = key
      · rw [nested?, if_pos heq, Option.some.injEq] at hkey
        exact ⟨heq ▸ hname, hkey ▸ hnested⟩
      · rw [nested?, if_neg heq] at hkey
        exact ih hrest hkey

theorem Proper.mapChanges {d : Diff} {f : List Change → List Change} (h : d.Proper legal)
    (hnodup : ((f d.changes).map Change.name).Nodup)
    (hlegal : ∀ name ∈ (f d.changes).map Change.name, legal name) :
    (d.mapChanges f).Proper legal := by
  induction d with
  | plain changes => exact ⟨hnodup, hlegal⟩
  | nest name nested rest _ ih =>
      obtain ⟨hname, hnested, hkeys, hrest⟩ := h
      refine ⟨hname, hnested, ?_, ih hrest hnodup hlegal⟩
      rw [embedded_mapChanges]
      exact hkeys

theorem proper_empty : empty.Proper legal := ⟨List.nodup_nil, by simp⟩

theorem Proper.add {d : Diff} {change : Change} (h : d.Proper legal) (hc : legal change.name) :
    (d.add change).Proper legal := by
  apply h.mapChanges (nodup_record change h.nodup)
  intro name hname
  rcases (mem_names_record change d.changes name).mp hname with rfl | hname
  · exact hc
  · exact h.legal_change name hname

theorem Proper.addAll {d : Diff} {changes : List Change} (h : d.Proper legal)
    (hc : ∀ c ∈ changes, legal c.name) : (d.addAll changes).Proper legal := by
  induction changes generalizing d with
  | nil => exact h
  | cons c rest ih =>
      exact ih (h.add (hc c (by simp))) (fun c' hc' => hc c' (by simp [hc']))

theorem Proper.upsert {d absent : Diff} {present : Diff → Diff} {name : String}
    (h : d.Proper legal) (hname : legal name) (habsent : absent.Proper legal)
    (hpresent : ∀ inner : Diff, inner.Proper legal → (present inner).Proper legal) :
    (d.upsert name present absent).Proper legal := by
  induction d with
  | plain changes => exact ⟨hname, habsent, by simp [embedded], h⟩
  | nest n nested rest _ ih =>
      obtain ⟨hn, hnested, hkeys, hrest⟩ := h
      unfold Diff.upsert
      split_ifs with heq hlt
      · exact ⟨hn, hpresent nested hnested, hkeys, hrest⟩
      · refine ⟨hname, habsent, ?_, hn, hnested, hkeys, hrest⟩
        intro key hkey
        rcases List.mem_cons.mp hkey with rfl | hkey
        · exact hlt
        · exact String.lt_trans hlt (hkeys key hkey)
      · refine ⟨hn, hnested, ?_, ih hrest⟩
        intro key hkey
        rcases (mem_keys_upsert rest name present absent key).mp hkey with rfl | hkey
        · by_contra hge
          exact heq (String.le_antisymm (String.not_lt.mp hlt) (String.not_lt.mp hge))
        · exact hkeys key hkey

theorem Proper.mergeInto {later earlier : Diff} (hl : later.Proper legal)
    (he : earlier.Proper legal) : (later.mergeInto earlier).Proper legal := by
  induction later generalizing earlier with
  | plain changes =>
      exact he.addAll fun c hc => hl.2 c.name (List.mem_map_of_mem hc)
  | nest name nested rest ihn ihr =>
      obtain ⟨hname, hnested, -, hrest⟩ := hl
      exact ihr hrest (he.upsert hname hnested fun inner hinner => ihn hnested hinner)

theorem Proper.merge {earlier later : Diff} (he : earlier.Proper legal)
    (hl : later.Proper legal) : (earlier.merge later).Proper legal :=
  hl.mergeInto he

theorem Proper.addEmbedded {d nested : Diff} {name : String} (h : d.Proper legal)
    (hname : legal name) (hnested : nested.Proper legal) :
    (d.addEmbedded name nested).Proper legal :=
  h.upsert hname hnested fun _ hinner => hinner.merge hnested

theorem Proper.legal_topNames {d : Diff} (h : d.Proper legal) : ∀ name ∈ d.topNames, legal name := by
  intro name hname
  rcases List.mem_append.mp hname with hname | hname
  · exact h.legal_change name hname
  · obtain ⟨inner, hinner⟩ := Option.isSome_iff_exists.mp ((nested?_isSome_iff d name).mpr hname)
    exact (h.nested hinner).1

end Diff

end Chronicle
