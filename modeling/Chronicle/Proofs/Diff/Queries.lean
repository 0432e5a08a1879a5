import Chronicle.Proofs.Diff.Algebra
import Chronicle.Proofs.Diff.Place
import Mathlib.Data.List.Nodup

/-!
# What diffs answer

The three questions to a diff describe the same paths: its attributes are listed once each, they are the
paths with an old value, and what changed are the attributes and the nested diffs. Merging two diffs
unites all answers, and the later old value wins at every path.

## Implementation notes

Every answer is told level by level: a path without a dot is answered by the names of the first level,
any other path by the nested diff of its first name. A diff that mentions legal names only has no name
that could be taken for a longer path.
-/

namespace Chronicle

namespace Diff

variable {legal : String → Prop}

/-! ## Attributes -/

theorem nodup_attributes_of {d : Diff} (h : d.Proper Dotless) (hnested : d.nestedPaths.Nodup) :
    d.attributes.Nodup := by
  apply List.Nodup.append h.nodup hnested
  intro name hname hpath
  exact not_below_of_dotless h (h.legal_change name hname) ((mem_nestedPaths h name).mp hpath)

theorem nodup_nestedPaths {d : Diff} (h : d.Proper Dotless) : d.nestedPaths.Nodup := by
  induction d with
  | plain changes => exact List.nodup_nil
  | nest name nested rest ihNested ihRest =>
      obtain ⟨hname, hnested, hkeys, hrest⟩ := h
      have hinner : (nested.attributes.map fun path => name ++ "." ++ path).Nodup := by
        apply List.Nodup.map _ (nodup_attributes_of hnested (ihNested hnested))
        intro path other heq
        exact (String.append_right_inj _).mp heq
      apply List.Nodup.append hinner (ihRest hrest)
      intro path hmem hother
      obtain ⟨tail, -, rfl⟩ := List.mem_map.mp hmem
      rw [mem_nestedPaths hrest, below_iff_of_split hrest (splitPath_append hname tail)] at hother
      obtain ⟨inner, hkey, -⟩ := hother
      have hlater : name ∈ rest.embedded.map Prod.fst :=
        (nested?_isSome_iff rest name).mp (by rw [hkey]; rfl)
      exact String.lt_irrefl name (hkeys name hlater)

/-- The attributes of a diff are listed once each. -/
theorem nodup_attributes {d : Diff} (h : d.Proper Dotless) : d.attributes.Nodup :=
  nodup_attributes_of h (nodup_nestedPaths h)

/-! ## Changed paths -/

theorem isChanged_of_dotless (d : Diff) {path : String} (h : Dotless path) :
    d.isChanged path = d.mentions path := by
  rw [isChanged, splitPath_eq_none.mpr h]
  exact Bool.or_false _

theorem isChanged_of_split {d : Diff} (h : d.Proper Dotless) {path head tail : String}
    (hsplit : splitPath path = some (head, tail)) :
    d.isChanged path = (d.nested? head).any (·.isChanged tail) := by
  have hmentions : d.mentions path = false := by
    rw [Bool.eq_false_iff, Ne, mentions_iff]
    exact not_mem_topNames_of_split h hsplit
  rw [isChanged, hmentions, hsplit, Bool.false_or]
  exact changedWithin_eq_nested d head tail

/-- A merged diff has changed where one of the two diffs has. -/
theorem isChanged_merge {earlier later : Diff} (he : earlier.Proper Dotless)
    (hl : later.Proper Dotless) (path : String) :
    (earlier.merge later).isChanged path = (earlier.isChanged path || later.isChanged path) := by
  cases hsplit : splitPath path with
  | none =>
      have hdot := splitPath_eq_none.mp hsplit
      rw [isChanged_of_dotless _ hdot, isChanged_of_dotless _ hdot, isChanged_of_dotless _ hdot,
        Bool.eq_iff_iff, Bool.or_eq_true, mentions_iff, mentions_iff, mentions_iff,
        mem_topNames_merge he hl]
  | some ends =>
      obtain ⟨head, tail⟩ := ends
      rw [isChanged_of_split (he.merge hl) hsplit, isChanged_of_split he hsplit,
        isChanged_of_split hl hsplit, nested?_merge he hl]
      cases hearlier : earlier.nested? head with
      | none => cases later.nested? head <;> simp
      | some e =>
          cases hlater : later.nested? head with
          | none => simp
          | some l =>
              have := splitPath_shorter hsplit
              exact isChanged_merge (he.nested hearlier).2 (hl.nested hlater).2 tail
termination_by path.length

/-! ## Paths of nested diffs -/

/-- Whether a path leads to a nested diff, through nested diffs only. -/
def LeadsToNested (d : Diff) (path : String) : Prop :=
  ∃ place ∈ d.nestedPlaces, path = ".".intercalate place

theorem leadsToNested_iff {d : Diff} (h : d.Proper legal) (path : String) :
    d.LeadsToNested path ↔
      path ∈ d.nestedNames ∨
        ∃ key inner tail, d.nested? key = some inner ∧ inner.LeadsToNested tail ∧
          path = key ++ "." ++ tail := by
  constructor
  · rintro ⟨place, hplace, rfl⟩
    cases place with
    | nil => exact absurd hplace (nil_not_mem_places h)
    | cons key rest =>
        rcases (cons_mem_places h key rest).mp hplace with ⟨hname, rfl⟩ | ⟨inner, hkey, hrest⟩
        · rw [String.intercalate_singleton]
          exact Or.inl hname
        · have hne : rest ≠ [] := by
            rintro rfl
            exact nil_not_mem_places (h.nested hkey).2 hrest
          rw [String.intercalate_cons_of_ne_nil hne]
          exact Or.inr ⟨key, inner, _, hkey, ⟨rest, hrest, rfl⟩, rfl⟩
  · rintro (hname | ⟨key, inner, tail, hkey, ⟨rest, hrest, rfl⟩, rfl⟩)
    · exact ⟨[path], (cons_mem_places h path []).mpr (Or.inl ⟨hname, rfl⟩),
        String.intercalate_singleton.symm⟩
    · have hne : rest ≠ [] := by
        rintro rfl
        exact nil_not_mem_places (h.nested hkey).2 hrest
      refine ⟨key :: rest, (cons_mem_places h key rest).mpr (Or.inr ⟨inner, hkey, hrest⟩), ?_⟩
      rw [String.intercalate_cons_of_ne_nil hne]

/-- What changed are the attributes and the nested diffs. -/
theorem isChanged_iff {d : Diff} (h : d.Proper Dotless) (path : String) :
    d.isChanged path = true ↔ path ∈ d.attributes ∨ d.LeadsToNested path := by
  rw [attributes, List.mem_append, mem_nestedPaths h, leadsToNested_iff h]
  cases hsplit : splitPath path with
  | none =>
      have hdot := splitPath_eq_none.mp hsplit
      rw [isChanged_of_dotless d hdot, mentions_iff, or_iff_left (not_below_of_dotless h hdot),
        or_iff_left (not_below_of_dotless h hdot), topNames, List.mem_append, nestedNames]
  | some ends =>
      obtain ⟨head, tail⟩ := ends
      have htop := not_mem_topNames_of_split h hsplit
      rw [topNames, List.mem_append, not_or] at htop
      rw [isChanged_of_split h hsplit, or_iff_right htop.1, nestedNames, or_iff_right htop.2,
        below_iff_of_split h hsplit, below_iff_of_split h hsplit]
      cases hkey : d.nested? head with
      | none => simp
      | some inner =>
          have := splitPath_shorter hsplit
          simpa using isChanged_iff (h.nested hkey).2 tail
termination_by path.length

end Diff

/-- Merging unites what two diffs answer: at every path the old value is the later one where there is
any and the earlier one everywhere else, what changed is what has changed in either, and the attributes
are those of both. -/
theorem merging_unites_answers {earlier later : Diff} (he : earlier.Built Dotless)
    (hl : later.Built Dotless) (path : String) :
    (earlier.merge later).oldValue? path =
        (later.oldValue? path).or (earlier.oldValue? path) ∧
      ((earlier.merge later).isChanged path = true ↔
        earlier.isChanged path = true ∨ later.isChanged path = true) ∧
      (path ∈ (earlier.merge later).attributes ↔
        path ∈ earlier.attributes ∨ path ∈ later.attributes) := by
  refine ⟨Diff.oldValue?_merge he.proper hl.proper path, ?_,
    Diff.mem_attributes_merge he.proper hl.proper path⟩
  rw [Diff.isChanged_merge he.proper hl.proper, Bool.or_eq_true]

namespace Sample

/-- What is reported of someone who had no address and has grown older. -/
def homeless : Diff := .ofChanges [⟨"address", .null⟩, ⟨"age", .scalar (.int 31)⟩]

theorem homeless_built : homeless.Built Dotless := .ofChanges (by simp [Dotless])

end Sample

open Sample in
/-- An attribute that was null later and an object before answers as both. -/
theorem address_answers_as_both :
    (naming.Built Dotless ∧ homeless.Built Dotless) ∧
      (naming.merge homeless).oldValue? "address" = some .null ∧
      (naming.merge homeless).oldValue? "address.code" = some (.scalar (.text "75")) ∧
      (naming.merge homeless).oldValue? "age" = some (.scalar (.int 31)) ∧
      "address.code" ∈ (naming.merge homeless).attributes := by
  have answers := merging_unites_answers naming_built homeless_built
  refine ⟨⟨naming_built, homeless_built⟩, (answers "address").1.trans ?_,
    (answers "address.code").1.trans ?_, (answers "age").1.trans ?_,
    (answers "address.code").2.2.mpr (Or.inl ?_)⟩
  all_goals decide +kernel

/-- The questions to a diff agree: it lists its attributes once each, they are the paths at which it has
an old value, and what changed are the attributes and the paths of nested diffs. -/
theorem answers_agree {d : Diff} (h : d.Built Dotless) :
    d.attributes.Nodup ∧ ∀ path,
      (path ∈ d.attributes ↔ (d.oldValue? path).isSome) ∧
      (d.isChanged path = true ↔ path ∈ d.attributes ∨ d.LeadsToNested path) :=
  ⟨Diff.nodup_attributes h.proper, fun path =>
    ⟨Diff.mem_attributes_iff h.proper path, Diff.isChanged_iff h.proper path⟩⟩

open Sample in
/-- A nested diff changed without being an attribute. -/
theorem geo_changed_as_nested :
    move.Built Dotless ∧ move.attributes.Nodup ∧
      "address.geo" ∉ move.attributes ∧ move.LeadsToNested "address.geo" ∧
      (move.oldValue? "address.geo.lat").isSome := by
  obtain ⟨hnodup, hanswers⟩ := answers_agree move_built
  have hnot : "address.geo" ∉ move.attributes := by decide +kernel
  have hchanged : move.isChanged "address.geo" = true := by decide +kernel
  have hlat : "address.geo.lat" ∈ move.attributes := by decide +kernel
  exact ⟨move_built, hnodup, hnot, ((hanswers _).2.mp hchanged).resolve_left hnot,
    (hanswers _).1.mp hlat⟩

end Chronicle
