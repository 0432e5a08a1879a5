import Chronicle.Proofs.Diff.Proper
import Mathlib.Data.List.TakeWhile

/-!
# Merging diffs, read by paths

The old value at a path of a merged diff is the later one's where the later one has any, and the
earlier one's everywhere else; the attributes of a diff are the paths at which it has an old value.

## Implementation notes

A path with a dot only leads into nested diffs if no plain change is named by it as a whole, so that
both statements ask for names without dots.
-/

namespace Chronicle

/-- Whether a name contains no dot. -/
def Dotless (name : String) : Prop := '.' ∉ name.toList

namespace Diff

variable {legal : String → Prop}

/-! ## Paths -/

theorem splitPath_append {name : String} (h : Dotless name) (path : String) :
    splitPath (name ++ "." ++ path) = some (name, path) := by
  have hall : ∀ c ∈ name.toList, decide (c ≠ '.') = true := by
    intro c hc
    simp only [decide_eq_true_eq]
    rintro rfl
    exact h hc
  have hlist : (name ++ "." ++ path).toList = name.toList ++ '.' :: path.toList := by
    simp
  have hdrop : (name ++ "." ++ path).toList.dropWhile (· ≠ '.') = '.' :: path.toList := by
    rw [hlist, List.dropWhile_append_of_pos hall, List.dropWhile_cons_of_neg (by simp)]
  have htake : (name ++ "." ++ path).toList.takeWhile (· ≠ '.') = name.toList := by
    rw [hlist, List.takeWhile_append_of_pos hall, List.takeWhile_cons_of_neg (by simp)]
    exact List.append_nil _
  simp only [splitPath, hdrop, htake, String.ofList_toList]

theorem splitPath_eq_none {path : String} : splitPath path = none ↔ Dotless path := by
  unfold splitPath
  cases hdrop : path.toList.dropWhile (· ≠ '.') with
  | nil =>
      simp only [true_iff]
      intro hmem
      have := List.dropWhile_eq_nil_iff.mp hdrop '.' hmem
      simp at this
  | cons c rest =>
      simp only [reduceCtorEq, false_iff]
      intro h
      have hall : ∀ c ∈ path.toList, decide (c ≠ '.') = true := by
        intro c hc
        simp only [decide_eq_true_eq]
        rintro rfl
        exact h hc
      rw [List.dropWhile_eq_nil_iff.mpr hall] at hdrop
      cases hdrop

theorem splitPath_eq_some {path head tail : String} (h : splitPath path = some (head, tail)) :
    Dotless head ∧ path = head ++ "." ++ tail := by
  unfold splitPath at h
  cases hdrop : path.toList.dropWhile (· ≠ '.') with
  | nil =>
      rw [hdrop] at h
      cases h
  | cons c rest =>
      simp only [hdrop, Option.some.injEq, Prod.mk.injEq] at h
      obtain ⟨rfl, rfl⟩ := h
      have hc : c = '.' := by
        have hhead := List.head?_dropWhile_not (fun c : Char => decide (c ≠ '.')) path.toList
        rw [hdrop, List.head?_cons] at hhead
        simpa using hhead
      constructor
      · intro hmem
        rw [String.toList_ofList] at hmem
        simpa using List.mem_takeWhile_imp hmem
      · apply String.toList_injective
        have hwhole := List.takeWhile_append_dropWhile (p := fun c : Char => decide (c ≠ '.'))
          (l := path.toList)
        rw [hdrop, hc] at hwhole
        simp only [String.toList_append, String.toList_ofList, List.append_assoc]
        exact hwhole.symm

theorem splitPath_shorter {path head tail : String} (h : splitPath path = some (head, tail)) :
    tail.length < path.length := by
  obtain ⟨-, rfl⟩ := splitPath_eq_some h
  simp only [String.length_append]
  have : ".".length = 1 := rfl
  omega

/-! ## One level of a merged diff -/

theorem nested?_upsert {d : Diff} (h : d.Proper legal) (name : String) (present : Diff → Diff)
    (absent : Diff) (key : String) :
    (d.upsert name present absent).nested? key =
      if name = key then some ((d.nested? name).elim absent present) else d.nested? key := by
  induction d with
  | plain changes => rfl
  | nest n nested rest _ ih =>
      obtain ⟨-, -, hkeys, hrest⟩ := h
      unfold upsert
      by_cases hn : n = name
      · subst hn
        by_cases hkey : n = key <;> simp [nested?, hkey]
      · rw [if_neg hn]
        by_cases hlt : name < n
        · have hnone : rest.nested? name = none := by
            apply nested?_eq_none
            intro hmem
            exact String.lt_irrefl name (String.lt_trans hlt (hkeys name hmem))
          by_cases hkey : name = key
          · subst hkey
            simp [hlt, nested?, hn, hnone]
          · simp [hlt, nested?, hkey]
        · rw [if_neg hlt, nested?, ih hrest]
          by_cases hkey : name = key
          · subst hkey
            simp [nested?, hn]
          · simp only [if_neg hkey, nested?]

theorem changes_mergeInto (later earlier : Diff) :
    (later.mergeInto earlier).changes =
      later.changes.foldl (fun acc c => record c acc) earlier.changes := by
  induction later generalizing earlier with
  | plain changes => exact changes_addAll earlier changes
  | nest name nested rest _ ih => rw [mergeInto, ih, changes_upsert, changes]

/-- A nested diff of a merged diff is what the two diffs have merged, if both have one. -/
theorem nested?_merge {earlier later : Diff} (he : earlier.Proper legal) (hl : later.Proper legal)
    (key : String) :
    (earlier.merge later).nested? key =
      Option.merge merge (earlier.nested? key) (later.nested? key) := by
  induction later generalizing earlier with
  | plain changes =>
      rw [merge, mergeInto, nested?_addAll, nested?, Option.merge_none_right]
  | nest name nested rest _ ih =>
      obtain ⟨hname, hnested, hkeys, hrest⟩ := hl
      have hup : (earlier.upsert name (fun present => nested.mergeInto present) nested).Proper
          legal :=
        he.upsert hname hnested fun _ hinner => hnested.mergeInto hinner
      change ((earlier.upsert name (fun present => nested.mergeInto present) nested).merge
        rest).nested? key = _
      rw [ih hup hrest, nested?_upsert he]
      by_cases hkey : name = key
      · subst hkey
        have hnone : rest.nested? name = none :=
          nested?_eq_none rest name fun hmem => String.lt_irrefl name (hkeys name hmem)
        rw [hnone, nested?, if_pos rfl, if_pos rfl, Option.merge_none_right]
        cases earlier.nested? name <;> rfl
      · rw [if_neg hkey, nested?, if_neg hkey]

theorem plainOld?_merge {earlier later : Diff} (hl : later.Proper legal) (name : String) :
    plainOld? (earlier.merge later).changes name =
      (plainOld? later.changes name).or (plainOld? earlier.changes name) := by
  rw [merge, changes_mergeInto, plainOld?_foldl_record later.changes earlier.changes name hl.nodup]

theorem mem_topNames_merge {earlier later : Diff} (he : earlier.Proper legal)
    (hl : later.Proper legal) (name : String) :
    name ∈ (earlier.merge later).topNames ↔ name ∈ earlier.topNames ∨ name ∈ later.topNames := by
  have hnested : name ∈ (earlier.merge later).embedded.map Prod.fst ↔
      name ∈ earlier.embedded.map Prod.fst ∨ name ∈ later.embedded.map Prod.fst := by
    rw [← nested?_isSome_iff, ← nested?_isSome_iff, ← nested?_isSome_iff, nested?_merge he hl]
    cases earlier.nested? name <;> cases later.nested? name <;> simp
  have hplain : name ∈ (earlier.merge later).changes.map Change.name ↔
      name ∈ later.changes.map Change.name ∨ name ∈ earlier.changes.map Change.name := by
    rw [merge, changes_mergeInto]
    exact mem_names_foldl_record later.changes earlier.changes name
  simp only [topNames, List.mem_append, hnested, hplain]
  tauto

/-! ## Paths below a level -/

variable {below : Diff → String → Prop}

/-- A path without a dot leads into no nested diff. -/
theorem not_below_of_dotless {d : Diff} (h : d.Proper Dotless) {path : String} (hpath : Dotless path) :
    ¬ ∃ key inner tail, d.nested? key = some inner ∧ below inner tail ∧ path = key ++ "." ++ tail := by
  rintro ⟨key, inner, tail, hkey, -, rfl⟩
  have hsplit := splitPath_append (h.nested hkey).1 tail
  rw [splitPath_eq_none.mpr hpath] at hsplit
  cases hsplit

/-- A path with a dot leads into the nested diff of the name before its first dot. -/
theorem below_iff_of_split {d : Diff} (h : d.Proper Dotless) {path head tail : String}
    (hsplit : splitPath path = some (head, tail)) :
    (∃ key inner rest, d.nested? key = some inner ∧ below inner rest ∧ path = key ++ "." ++ rest) ↔
      ∃ inner, d.nested? head = some inner ∧ below inner tail := by
  constructor
  · rintro ⟨key, inner, rest, hkey, hbelow, rfl⟩
    rw [splitPath_append (h.nested hkey).1, Option.some.injEq, Prod.mk.injEq] at hsplit
    obtain ⟨rfl, rfl⟩ := hsplit
    exact ⟨inner, hkey, hbelow⟩
  · rintro ⟨inner, hkey, hbelow⟩
    exact ⟨head, inner, tail, hkey, hbelow, (splitPath_eq_some hsplit).2⟩

theorem not_mem_topNames_of_split {d : Diff} (h : d.Proper Dotless) {path head tail : String}
    (hsplit : splitPath path = some (head, tail)) : path ∉ d.topNames := by
  intro hmem
  rw [splitPath_eq_none.mpr (h.legal_topNames path hmem)] at hsplit
  cases hsplit

/-! ## Paths of a merged diff -/

theorem oldValue?_of_dotless (d : Diff) {path : String} (h : Dotless path) :
    d.oldValue? path = plainOld? d.changes path := by
  rw [oldValue?, splitPath_eq_none.mpr h]
  cases plainOld? d.changes path <;> rfl

theorem oldValue?_of_split {d : Diff} (h : d.Proper Dotless) {path head tail : String}
    (hsplit : splitPath path = some (head, tail)) :
    d.oldValue? path = (d.nested? head).bind (·.oldValue? tail) := by
  have hnone : plainOld? d.changes path = none := by
    rw [← Option.not_isSome_iff_eq_none, plainOld?_isSome_iff]
    exact fun hmem => not_mem_topNames_of_split h hsplit (List.mem_append_left _ hmem)
  rw [oldValue?, hnone, hsplit]
  exact oldWithin?_eq_nested d head tail

/-- Merging is path by path: the later old value where there is one, else the earlier one. -/
theorem oldValue?_merge {earlier later : Diff} (he : earlier.Proper Dotless)
    (hl : later.Proper Dotless) (path : String) :
    (earlier.merge later).oldValue? path =
      (later.oldValue? path).or (earlier.oldValue? path) := by
  cases hsplit : splitPath path with
  | none =>
      have hdot := splitPath_eq_none.mp hsplit
      rw [oldValue?_of_dotless _ hdot, oldValue?_of_dotless _ hdot, oldValue?_of_dotless _ hdot,
        plainOld?_merge hl]
  | some ends =>
      obtain ⟨head, tail⟩ := ends
      rw [oldValue?_of_split (he.merge hl) hsplit, oldValue?_of_split he hsplit,
        oldValue?_of_split hl hsplit, nested?_merge he hl]
      cases hearlier : earlier.nested? head with
      | none => cases later.nested? head <;> simp
      | some e =>
          cases hlater : later.nested? head with
          | none => rfl
          | some l =>
              have := splitPath_shorter hsplit
              exact oldValue?_merge (he.nested hearlier).2 (hl.nested hlater).2 tail
termination_by path.length

/-! ## Attributes -/

theorem mem_nestedPaths {d : Diff} (h : d.Proper legal) (path : String) :
    path ∈ d.nestedPaths ↔
      ∃ key inner tail, d.nested? key = some inner ∧ tail ∈ inner.attributes ∧
        path = key ++ "." ++ tail := by
  induction d with
  | plain changes => simp [nestedPaths, nested?]
  | nest name nested rest _ ih =>
      obtain ⟨-, -, hkeys, hrest⟩ := h
      rw [nestedPaths, List.mem_append, ih hrest, List.mem_map]
      constructor
      · rintro (⟨tail, htail, rfl⟩ | ⟨key, inner, tail, hkey, htail, rfl⟩)
        · exact ⟨name, nested, tail, by rw [nested?, if_pos rfl], htail, rfl⟩
        · refine ⟨key, inner, tail, ?_, htail, rfl⟩
          have hmem : key ∈ rest.embedded.map Prod.fst :=
            (nested?_isSome_iff rest key).mp (by rw [hkey]; rfl)
          have hne : name ≠ key := by
            rintro rfl
            exact String.lt_irrefl name (hkeys name hmem)
          rw [nested?, if_neg hne]
          exact hkey
      · rintro ⟨key, inner, tail, hkey, htail, rfl⟩
        by_cases hname : name = key
        · rw [nested?, if_pos hname, Option.some.injEq] at hkey
          subst hname hkey
          exact Or.inl ⟨tail, htail, rfl⟩
        · rw [nested?, if_neg hname] at hkey
          exact Or.inr ⟨key, inner, tail, hkey, htail, rfl⟩

/-- The attributes of a diff are the paths at which it has an old value. -/
theorem mem_attributes_iff {d : Diff} (h : d.Proper Dotless) (path : String) :
    path ∈ d.attributes ↔ (d.oldValue? path).isSome := by
  rw [attributes, List.mem_append, mem_nestedPaths h]
  cases hsplit : splitPath path with
  | none =>
      have hdot := splitPath_eq_none.mp hsplit
      rw [oldValue?_of_dotless d hdot, plainOld?_isSome_iff,
        or_iff_left (not_below_of_dotless h hdot)]
  | some ends =>
      obtain ⟨head, tail⟩ := ends
      have hnot : path ∉ d.changes.map Change.name := fun hmem =>
        not_mem_topNames_of_split h hsplit (List.mem_append_left _ hmem)
      rw [or_iff_right hnot, below_iff_of_split h hsplit, oldValue?_of_split h hsplit]
      cases hkey : d.nested? head with
      | none => simp
      | some inner =>
          have := splitPath_shorter hsplit
          simpa using mem_attributes_iff (h.nested hkey).2 tail
termination_by path.length

/-- The attributes of a merged diff are those of the two diffs together. -/
theorem mem_attributes_merge {earlier later : Diff} (he : earlier.Proper Dotless)
    (hl : later.Proper Dotless) (path : String) :
    path ∈ (earlier.merge later).attributes ↔
      path ∈ earlier.attributes ∨ path ∈ later.attributes := by
  rw [mem_attributes_iff (he.merge hl), mem_attributes_iff he, mem_attributes_iff hl,
    oldValue?_merge he hl, Option.isSome_or, Bool.or_eq_true, or_comm]

end Diff

end Chronicle
