import Chronicle.Proofs.Diff.Proper

/-!
# Diffs of names

What is known of a created entity is only which attributes have a value. A diff of names has no nested
diff, mentions each attribute once, and keeps no old value; merging the names of any other diff keeps
this, and merging them once more changes nothing.
-/

namespace Chronicle

namespace Diff

/-- Whether a diff only names attributes. -/
structure NamesOnly (d : Diff) : Prop where
  flat : d.embedded = []
  distinct : (d.changes.map Change.name).Nodup
  null : ∀ change ∈ d.changes, change.old = .null

/-- A diff with one more name, unless the name is mentioned already. -/
def addName (d : Diff) (name : String) : Diff :=
  if d.mentions name then d else d.mapChanges (· ++ [⟨name, .null⟩])

theorem mergeNames_eq (d other : Diff) : d.mergeNames other = other.topNames.foldl addName d := rfl

theorem mentions_iff (d : Diff) (name : String) : d.mentions name = true ↔ name ∈ d.topNames :=
  List.contains_iff_mem

/-! ## What is mentioned -/

theorem addName_of_mem {d : Diff} {name : String} (h : name ∈ d.topNames) : d.addName name = d :=
  if_pos ((d.mentions_iff name).mpr h)

theorem addName_of_not_mem {d : Diff} {name : String} (h : name ∉ d.topNames) :
    d.addName name = d.mapChanges (· ++ [⟨name, .null⟩]) :=
  if_neg fun hmentions => h ((d.mentions_iff name).mp hmentions)

@[simp] theorem embedded_addName (d : Diff) (name : String) :
    (d.addName name).embedded = d.embedded := by
  by_cases h : name ∈ d.topNames
  · rw [addName_of_mem h]
  · rw [addName_of_not_mem h, embedded_mapChanges]

theorem mem_topNames_addName (d : Diff) (name other : String) :
    other ∈ (d.addName name).topNames ↔ other = name ∨ other ∈ d.topNames := by
  by_cases h : name ∈ d.topNames
  · rw [addName_of_mem h]
    constructor
    · exact Or.inr
    · rintro (rfl | hother)
      · exact h
      · exact hother
  · rw [addName_of_not_mem h]
    simp only [topNames, changes_mapChanges, embedded_mapChanges, List.map_append, List.map_cons,
      List.map_nil, List.mem_append, List.mem_singleton]
    tauto

theorem nodup_addName {d : Diff} (h : (d.changes.map Change.name).Nodup) (name : String) :
    ((d.addName name).changes.map Change.name).Nodup := by
  by_cases hmem : name ∈ d.topNames
  · rw [addName_of_mem hmem]
    exact h
  · have hnew : name ∉ d.changes.map Change.name := fun hname =>
      hmem (List.mem_append_left _ hname)
    rw [addName_of_not_mem hmem, changes_mapChanges, List.map_append, List.nodup_append]
    refine ⟨h, by simp, ?_⟩
    intro a ha b hb hab
    rw [List.map_singleton, List.mem_singleton] at hb
    subst hab hb
    exact hnew ha

theorem mem_topNames_mergeNames (d other : Diff) (name : String) :
    name ∈ (d.mergeNames other).topNames ↔ name ∈ d.topNames ∨ name ∈ other.topNames := by
  rw [mergeNames_eq]
  induction other.topNames generalizing d with
  | nil => simp
  | cons first rest ih =>
      rw [List.foldl_cons, ih, mem_topNames_addName, List.mem_cons]
      tauto

/-! ## Proper diffs -/

variable {legal : String → Prop}

theorem Proper.addName {d : Diff} (h : d.Proper legal) {name : String} (hname : legal name) :
    (d.addName name).Proper legal := by
  by_cases hmem : name ∈ d.topNames
  · rw [addName_of_mem hmem]
    exact h
  · have hdistinct := nodup_addName h.nodup name
    rw [addName_of_not_mem hmem, changes_mapChanges] at hdistinct
    rw [addName_of_not_mem hmem]
    apply h.mapChanges hdistinct
    intro n hn
    rw [List.map_append, List.mem_append, List.map_singleton, List.mem_singleton] at hn
    rcases hn with hn | rfl
    · exact h.legal_change n hn
    · exact hname

theorem Proper.mergeNames {earlier later : Diff} (he : earlier.Proper legal)
    (hl : later.Proper legal) : (earlier.mergeNames later).Proper legal := by
  rw [mergeNames_eq]
  have hlegal := hl.legal_topNames
  revert hlegal
  induction later.topNames generalizing earlier with
  | nil => exact fun _ => he
  | cons first rest ih =>
      intro hlegal
      rw [List.forall_mem_cons] at hlegal
      exact ih (he.addName hlegal.1) hlegal.2

/-! ## Merging names again -/

theorem mergeNames_of_mentioned {d other : Diff} (h : ∀ name ∈ other.topNames, name ∈ d.topNames) :
    d.mergeNames other = d := by
  rw [mergeNames_eq]
  revert h
  induction other.topNames with
  | nil => exact fun _ => rfl
  | cons first rest ih =>
      intro h
      rw [List.forall_mem_cons] at h
      rw [List.foldl_cons, addName_of_mem h.1]
      exact ih h.2

theorem mergeNames_self (d : Diff) : d.mergeNames d = d :=
  mergeNames_of_mentioned fun _ h => h

/-- Names that were merged once are all there when they are merged again. -/
theorem mergeNames_mergeNames (d other : Diff) :
    (d.mergeNames other).mergeNames other = d.mergeNames other :=
  mergeNames_of_mentioned fun name h => (mem_topNames_mergeNames d other name).mpr (Or.inr h)

/-! ## Keeping names only -/

theorem namesOnly_empty : empty.NamesOnly := ⟨rfl, List.nodup_nil, by simp [empty, changes]⟩

theorem old_of_mem_record {change c : Change} {changes : List Change}
    (h : c ∈ record change changes) : c.old = change.old ∨ c ∈ changes := by
  induction changes with
  | nil => exact Or.inl (congrArg Change.old (List.mem_singleton.mp h))
  | cons first rest ih =>
      unfold record at h
      split_ifs at h
      · rcases List.mem_cons.mp h with rfl | h
        · exact Or.inl rfl
        · exact Or.inr (List.mem_cons_of_mem first h)
      · rcases List.mem_cons.mp h with rfl | h
        · exact Or.inr List.mem_cons_self
        · exact (ih h).imp_right (List.mem_cons_of_mem first)

theorem NamesOnly.add {d : Diff} (h : d.NamesOnly) {change : Change} (hnull : change.old = .null) :
    (d.add change).NamesOnly where
  flat := (embedded_mapChanges d _).trans h.flat
  distinct := by
    rw [Diff.add, changes_mapChanges]
    exact nodup_record change h.distinct
  null := by
    intro c hc
    rw [Diff.add, changes_mapChanges] at hc
    rcases old_of_mem_record hc with hold | hmem
    · exact hold.trans hnull
    · exact h.null c hmem

theorem NamesOnly.addAll {d : Diff} (h : d.NamesOnly) {later : List Change}
    (hnull : ∀ change ∈ later, change.old = .null) : (d.addAll later).NamesOnly := by
  induction later generalizing d with
  | nil => exact h
  | cons first rest ih =>
      rw [List.forall_mem_cons] at hnull
      exact ih (h.add hnull.1) hnull.2

theorem NamesOnly.addName {d : Diff} (h : d.NamesOnly) (name : String) :
    (d.addName name).NamesOnly where
  flat := (embedded_addName d name).trans h.flat
  distinct := nodup_addName h.distinct name
  null := by
    intro change hchange
    by_cases hmem : name ∈ d.topNames
    · rw [addName_of_mem hmem] at hchange
      exact h.null change hchange
    · rw [addName_of_not_mem hmem, changes_mapChanges] at hchange
      rcases List.mem_append.mp hchange with hchange | hchange
      · exact h.null change hchange
      · rw [List.mem_singleton.mp hchange]

/-- Whatever is merged into a diff of names, only its names are. -/
theorem NamesOnly.mergeNames {d : Diff} (h : d.NamesOnly) (other : Diff) :
    (d.mergeNames other).NamesOnly := by
  rw [mergeNames_eq]
  induction other.topNames generalizing d with
  | nil => exact h
  | cons first rest ih => exact ih (h.addName first)

/-! ## Outlines -/

/-- The diff that only names what another one mentions. -/
def outline (d : Diff) : Diff := empty.mergeNames d

theorem Proper.outline {d : Diff} (h : d.Proper legal) : d.outline.Proper legal :=
  proper_empty.mergeNames h

/-- Where all old values are null, a name is added as a change with a null old value is. -/
theorem NamesOnly.addName_eq_add {d : Diff} (h : d.NamesOnly) (name : String) :
    d.addName name = d.add ⟨name, .null⟩ := by
  have hplain : d = .plain d.changes := by
    cases d with
    | plain changes => rfl
    | nest n nested rest => cases h.flat
  have hnames : d.topNames = d.changes.map Change.name := by simp [topNames, h.flat]
  by_cases hmem : name ∈ d.topNames
  · obtain ⟨change, hchange, rfl⟩ := List.mem_map.mp (hnames ▸ hmem)
    have hknown : plainOld? d.changes change.name = some .null := by
      rw [plainOld?_of_mem h.distinct hchange, h.null change hchange]
    rw [addName_of_mem hmem, hplain]
    exact congrArg plain (record_of_known hknown).symm
  · rw [addName_of_not_mem hmem, hplain]
    exact congrArg plain (record_of_not_mem (hnames ▸ hmem)).symm

theorem NamesOnly.merge_addName {d e : Diff} (h : d.NamesOnly) (he : e.NamesOnly) (name : String) :
    (d.merge e).addName name = d.merge (e.addName name) := by
  cases e with
  | nest n nested rest => cases he.flat
  | plain changes =>
      have hmerged : (d.addAll changes).NamesOnly := h.addAll he.null
      by_cases hmem : name ∈ changes.map Change.name
      · have hleft : name ∈ (d.addAll changes).topNames := by
          rw [topNames, changes_addAll, List.mem_append, mem_names_foldl_record]
          exact Or.inl (Or.inl hmem)
        rw [addName_of_mem (show name ∈ (plain changes).topNames from List.mem_append_left _ hmem)]
        exact addName_of_mem hleft
      · have hnew : name ∉ (plain changes).topNames := by
          simpa [topNames, Diff.changes, embedded] using hmem
        rw [addName_of_not_mem hnew]
        change (d.addAll changes).addName name = d.addAll (changes ++ [⟨name, .null⟩])
        rw [hmerged.addName_eq_add, Diff.addAll, Diff.addAll, List.foldl_append]
        rfl

/-- To merge the names of a diff into a diff of names is to merge its outline. -/
theorem NamesOnly.mergeNames_eq_merge {d : Diff} (h : d.NamesOnly) (other : Diff) :
    d.mergeNames other = d.merge other.outline := by
  have key : ∀ (names : List String) (e : Diff), e.NamesOnly →
      names.foldl Diff.addName (d.merge e) = d.merge (names.foldl Diff.addName e) := by
    intro names
    induction names with
    | nil => exact fun _ _ => rfl
    | cons first rest ih =>
        intro e he
        rw [List.foldl_cons, List.foldl_cons, h.merge_addName he]
        exact ih (e.addName first) (he.addName first)
  exact key other.topNames empty namesOnly_empty

end Diff

end Chronicle
